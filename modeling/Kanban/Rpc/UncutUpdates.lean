import Kanban.Lib.Uncut
import Kanban.Rpc.Placement
import Kanban.Rpc.Revisions
import Kanban.Rpc.UpdateMasks

/-!
# An `UpdateCard` that is not cut off

An `UpdateCard` updates the row of its card at once, and writes the event in a transaction after that.
If nothing fails in between, and the call does not stop there, the event is written.

## Main definitions

* `HalfTold` — the row of a card is written, and no event.
* `finishes_updateCard` — an `UpdateCard` that is not cut off tells what it has done.
-/

namespace Kanban.Rpc

open Program Kanban.Store Kanban.Auth
open Kanban.Services (AuthContext ConnectError IdCodec)

variable {ι α β τ : Type} [DecidableEq ι] {codec : IdCodec ι} {ctx : RequestContext} {db : Db ι}

/-- The row of a card is written, and no event. -/
def HalfTold (ws : List (Write (Rec ι))) : Prop := cardWrites ws ≠ [] ∧ eventWrites ws = []

/-- Every card is on a board that is there: the foreign key of `cards.board_id`. -/
def OnBoards (db : Db ι) : Prop := ∀ c ∈ db.cards, ∃ b ∈ db.boards, b.id = c.boardId

/-! ## Rules -/

section Rules

variable {B : List (Write (Rec ι)) → Prop} {P : Db ι → Prop} {tx : Tx (Rec ι)}
  {done ws : List (Write (Rec ι))} {v : Db ι} {Q : α → Tx (Rec ι) → List (Write (Rec ι)) → Db ι → Prop}

theorem finishes_orError_bind {o : Option β} {e : ConnectError} {f : β → Handler ι α} (hv : P v)
    (h : ∀ b, o = some b → Finishes (kanban ι) B P (f b) tx done v Q) :
    Finishes (kanban ι) B P ((orError e o).bind f) tx done v Q := by
  cases o with
  | none => exact hv
  | some b => exact h b rfl

theorem finishes_mute_bind {p : Handler ι β} {f : β → Handler ι α} (hp : Mute p) (hB : ¬ B done)
    (hv : P v) (h : ∀ b, Finishes (kanban ι) B P (f b) .idle done v Q) :
    Finishes (kanban ι) B P (p.bind f) .idle done v Q :=
  finishes_bind ((Finishes.of_only_nil hp hB hv).mono fun b tx done' v' ⟨htx, hdone, hv'⟩ => by
    subst htx hdone hv'
    exact h b)

/-- The first row of a statement outside of a transaction. -/
theorem finishes_fetchOr_bind {msg : String} {err : ConnectError} {st : Stmt (Db ι) (Rec ι) (List τ)}
    {f : τ → Handler ι α} (hv : P v)
    (hnone : ∀ e, st v = some e → e.answer.head? = none → e.writes = [])
    (h : ∀ e a, st v = some e → e.answer.head? = some a →
      (B (done ++ e.writes) ∨ P ((kanban ι).applyAll v e.writes)) ∧
      Finishes (kanban ι) B P (f a) .idle (done ++ e.writes) ((kanban ι).applyAll v e.writes) Q) :
    Finishes (kanban ι) B P ((fetchOr msg err st).bind f) .idle done v Q := by
  refine finishes_bind (finishes_bind (finishes_bind ⟨fun e he => ?_, fun _ => hv⟩))
  cases hrow : e.answer.head? with
  | none =>
      rw [hnone e he hrow]
      refine ⟨.inr hv, ?_⟩
      change Finishes (kanban ι) B P (orError err e.answer.head?) _ _ _ _
      rw [hrow]
      exact hv
  | some a =>
      refine ⟨(h e a he hrow).1, ?_⟩
      change Finishes (kanban ι) B P (orError err e.answer.head?) _ _ _ _
      rw [hrow]
      exact (h e a he hrow).2

/-- The first row of a `SELECT`. -/
theorem finishes_select_bind {msg : String} {err : ConnectError} {T : Table (Db ι) (Rec ι) τ}
    {p : τ → Bool} {f : τ → Handler ι α} (hv : P v)
    (h : ∀ r ∈ T.rows v, p r → Finishes (kanban ι) B P (f r) .idle done v Q) :
    Finishes (kanban ι) B P ((fetchOr msg err (T.select p)).bind f) .idle done v Q := by
  refine finishes_fetchOr_bind hv ?_ ?_
  · rintro e ⟨⟩ -
    rfl
  · rintro e r ⟨⟩ hrow
    have hmem := List.mem_filter.mp (List.mem_of_mem_head? hrow)
    refine ⟨.inr hv, ?_⟩
    rw [List.append_nil]
    exact h r hmem.1 hmem.2

end Rules

/-! ## The event -/

/-- The row of an event is written in the transaction. -/
theorem finishes_insertBoardEvent_bind {P : Db ι → Prop} {done : List (Write (Rec ι))} {v : Db ι}
    {Q : α → Tx (Rec ι) → List (Write (Rec ι)) → Db ι → Prop} {tenantId eventType : String}
    {boardId : ι} {payload : Payload} {f : Unit → Handler ι α} (hdone : HalfTold done)
    (hboard : ∃ b ∈ v.boards, b.id = boardId)
    (h : ∀ ws e, Says boardId eventType payload e → eventWrites ws ≠ [] →
      ((kanban ι).applyAll v ws).cards = v.cards →
      ((kanban ι).applyAll v ws).eventLog = v.eventLog ++ [e] →
      Finishes (kanban ι) HalfTold P (f ()) (.active ws) done v Q) :
    Finishes (kanban ι) HalfTold P ((insertBoardEvent tenantId boardId eventType payload).bind f)
      (.active []) done v Q := by
  have hbad : ∀ {q : Prop}, ¬ HalfTold done → q := fun hnot => absurd hdone hnot
  refine finishes_bind (finishes_bind (finishes_bind ⟨fun bump hbump => ?_, hbad⟩))
  have hbumped : ((kanban ι).applyAll v bump.writes).story = v.story := by
    refine story_applyAll fun a ha => ?_
    obtain ⟨b, rfl | rfl⟩ := Table.within_update v bump hbump a ha
    · trivial
    · trivial
  -- the board of the card is there, so the statement finds its row
  obtain ⟨b, hb, hid⟩ := hboard
  obtain ⟨board, hboard⟩ : ∃ board, bump.answer.head? = some board := by
    cases hbump
    exact Option.isSome_iff_exists.mp (List.isSome_head?.mpr (List.ne_nil_of_mem
      (List.mem_map_of_mem (List.mem_filter.mpr ⟨hb, decide_eq_true hid⟩))))
  change Finishes (kanban ι) HalfTold P (orError _ bump.answer.head?) _ _ _ _
  rw [hboard]
  intro i
  refine finishes_bind ⟨fun row hrow => ?_, hbad⟩
  refine ⟨fun e he => ?_, hbad⟩
  cases he
  obtain ⟨hlog, -⟩ := stored_eventLog.rows_insert hrow
  have hwrites : row.writes = [.put (.event ⟨i, tenantId, some boardId, none, none, eventType,
      withBoardRevision payload board.revision⟩)] := Table.writes_insert hrow
  refine h _ ⟨i, tenantId, some boardId, none, none, eventType,
    withBoardRevision payload board.revision⟩ ⟨rfl, rfl, board.revision, rfl⟩ ?_ ?_ ?_
  · simp [hwrites, eventWrites, eventWrite]
  · simp only [List.nil_append, List.append_nil, hwrites, Semantics.applyAll_append]
    exact congrArg Story.cards hbumped
  · simp only [List.nil_append, List.append_nil, Semantics.applyAll_append]
    exact hlog.trans (congrArg (· ++ _) (congrArg Story.events hbumped))

/-! ## The call -/

/-- The update of a card writes its row, and no event. -/
theorem halfTold_updateCardRow {v : Db ι} {t : String} {x : ι} {f : CardRow ι → CardRow ι}
    {e : Effect (Rec ι) (List (CardRow ι))} {row : CardRow ι} (he : updateCardRow t x f v = some e)
    (hrow : e.answer.head? = some row) : HalfTold e.writes := by
  refine ⟨?_, eventWrites_eq_nil fun a ha r heq => ?_⟩
  · cases he
    obtain ⟨c, hc, rfl⟩ := List.mem_map.mp (List.mem_of_mem_head? hrow)
    exact List.ne_nil_of_mem (List.mem_filterMap.mpr
      ⟨.put (.card (f c)), List.mem_map_of_mem hc, rfl⟩)
  · obtain ⟨c, rfl | rfl⟩ := Table.within_update v e he a ha <;> cases heq

/-- **An `UpdateCard` that is not cut off tells what it has done.** -/
theorem finishes_updateCard {req : UpdateCardRequest} (hdb : Sane db.cards) (hboards : OnBoards db) :
    Finishes (kanban ι) HalfTold (fun v => Announced codec db v.story) (updateCard codec ctx req) .idle []
      db fun _ _ _ v => Announced codec db v.story := by
  have hstart : Announced codec db db.story := .refl hdb
  have hnone : ¬ HalfTold ([] : List (Write (Rec ι))) := fun h => h.1 rfl
  refine finishes_orError_bind hstart fun _ _ => finishes_orError_bind hstart fun cardId _ =>
    finishes_orError_bind hstart fun t _ =>
    finishes_mute_bind .checkIdempotencyCard hnone hstart fun cached => ?_
  cases cached with
  | some existingId =>
      exact (Finishes.of_only_nil Mute.fetchFullCard hnone hstart).mono fun _ _ _ v ⟨_, _, hv⟩ => hv ▸ hstart
  | none =>
      refine finishes_select_bind hstart fun cur hcur hc =>
        finishes_mute_bind .milestonePatch hnone hstart fun milestone => ?_
      obtain ⟨rfl, rfl⟩ : cur.id = cardId ∧ cur.tenantId = t := by simpa using hc
      refine finishes_fetchOr_bind hstart ?_ fun e row he hrow => ?_
      · rintro e ⟨⟩ hnorow
        have hfound := List.map_eq_nil_iff.mp (List.head?_eq_none_iff.mp hnorow)
        exact congrArg (List.map _) hfound
      obtain ⟨⟨c, hmem, hid, ht, rfl⟩, hlog₁, hcards₁⟩ :=
        story_updateCardRow hdb.nodup he (fun _ => rfl) hrow
      obtain rfl : c = cur := List.inj_on_of_nodup_map hdb.nodup hmem hcur hid
      obtain ⟨hv₁, hversions₁⟩ := versions_update (f := patchCard req milestone) hdb hmem ht
        (fun _ => rfl) fun _ => rfl
      rw [← hcards₁] at hv₁ hversions₁
      have hhalf : HalfTold e.writes := halfTold_updateCardRow he hrow
      refine ⟨.inl hhalf, ?_⟩
      rw [List.nil_append]
      have hbad : ∀ {q : Prop}, ¬ HalfTold e.writes → q := fun hnot => absurd hhalf hnot
      refine ⟨finishes_insertBoardEvent_bind hhalf ?_ fun ws e' he' hevents hcards₂ hlog₂ => ?_, hbad⟩
      · refine (hboards c hmem).imp fun b hb => ⟨?_, hb.2⟩
        refine Eq.mpr (congrArg (b ∈ ·) (stored_boards.rows_applyAll fun a ha r heq => ?_)) hb.1
        obtain ⟨c', rfl | rfl⟩ := Table.within_update db e he a ha <;> cases heq
      have hcards : (((kanban ι).applyAll ((kanban ι).applyAll db e.writes) ws).story).cards =
          ((kanban ι).applyAll db e.writes).cards := hcards₂
      have hdone : Announced codec db ((kanban ι).applyAll ((kanban ι).applyAll db e.writes) ws).story :=
        announced_of_change (hcards ▸ hv₁) (hlog₂.trans (congrArg (· ++ [e']) hlog₁))
          (versions_of_mem hdb hmem) (hdb.nonneg c hmem) (hcards ▸ hversions₁)
          (noticeOf_updated he' rfl rfl rfl)
      refine ⟨.inr hdone, ?_, hbad⟩
      have htold : eventWrites (e.writes ++ ws) ≠ [] := fun hnil =>
        hevents (List.append_eq_nil_iff.mp ((eventWrites_append).symm.trans hnil)).2
      refine (Finishes.of_only (I := fun done v => eventWrites done ≠ [] ∧ Announced codec db v.story)
        (Tame.bind .storeIdempotencyId fun _ => .fetchFullCard) ?_ ?_ ⟨htold, hdone⟩).mono
        fun _ _ _ _ h => h.2.2
      · rintro done v ws hws ⟨hold, hv⟩
        refine ⟨fun hnil => hold (List.append_eq_nil_iff.mp (eventWrites_append.symm.trans hnil)).1, ?_⟩
        rw [story_applyAll hws.elsewhere]
        exact hv
      · exact fun done v ⟨hold, hv⟩ => ⟨fun hB => hold hB.2, hv⟩

end Kanban.Rpc
