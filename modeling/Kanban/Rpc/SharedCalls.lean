import Kanban.Rpc.SharedColumns

/-!
# Calls that share columns

How a call that creates or moves a card goes on in the midst of others that do not disturb it.  From
where it holds its columns, the cards of these columns are those of the store that it found, and the
writes of its transaction change them as they would if it ran alone.

## Main definitions

* `Pending` — what the pending writes of a transaction do to the cards of its columns.
* `runs_sharingHandler` — how the calls go on.
-/

namespace Kanban.Rpc

open Program Kanban.Store Kanban.Auth
open Kanban.Services (AuthContext ConnectError IdCodec)

variable {ι α β τ : Type} [DecidableEq ι]

/-! ## Rules -/

section Rules

variable {codec : IdCodec ι} {q : RequestContext × SharingCall} {D : ι → Prop} {s : Db ι}
  {tr : Trace (Rec ι) (Call ι) (Reply ι)} {w : World (Db ι) (Backend ι)} {tx : Tx (Rec ι)}
  {ws : List (Write (Rec ι))} {msg : String} {f : β → Handler ι α}
  {Q : α → Tx (Rec ι) → Trace (Rec ι) (Call ι) (Reply ι) → World (Db ι) (Backend ι) → Prop}

theorem shared_orError_bind {o : Option β} {e : ConnectError}
    (hk : ∀ b, o = some b → (columnHolding codec).Runs q (f b) tx tr w Q) :
    (columnHolding codec).Runs q ((orError e o).bind f) tx tr w Q := by
  cases o with
  | none => exact Holding.runs_fail
  | some b => exact hk b rfl

theorem shared_ensure_bind {p : Prop} [Decidable p] {e : ConnectError} {f : Unit → Handler ι α}
    (hk : p → (columnHolding codec).Runs q (f ()) tx tr w Q) :
    (columnHolding codec).Runs q ((ensure p e).bind f) tx tr w Q := by
  unfold ensure
  split
  · exact hk ‹p›
  · exact Holding.runs_fail

/-- A program that writes nothing, and what comes after it. -/
theorem shared_mute_bind {p : Handler ι β} (hp : Mute p) (h : (columnHolding codec).Inside q D s tr w)
    (hk : ∀ b tr' w', tr <:+ tr' → (columnHolding codec).Inside q D s tr' w' →
      (columnHolding codec).Runs q (f b) .idle tr' w' Q) :
    (columnHolding codec).Runs q (p.bind f) .idle tr w Q :=
  Holding.runs_bind ((Holding.Runs.of_only_nil hp h).mono fun b _ tr' w' ⟨htx, htr, h'⟩ =>
    htx ▸ hk b tr' w' htr h')

/-- Two ways to the same rest. -/
theorem shared_mute_fork {c : Prop} [Decidable c] {p p' : Handler ι β} (hp : Mute p) (hp' : Mute p')
    (h : (columnHolding codec).Inside q D s tr w)
    (hk : ∀ b tr' w', (columnHolding codec).Inside q D s tr' w' →
      (columnHolding codec).Runs q (f b) .idle tr' w' Q) :
    (columnHolding codec).Runs q (if c then p.bind f else p'.bind f) .idle tr w Q := by
  split
  · exact shared_mute_bind hp h fun b tr' w' _ => hk b tr' w'
  · exact shared_mute_bind hp' h fun b tr' w' _ => hk b tr' w'

/-- The first row of a `SELECT` is there. -/
theorem shared_fetchOr_bind {err : ConnectError} {T : Table (Db ι) (Rec ι) β} {p : β → Bool}
    (h : (columnHolding codec).Inside q D s tr w)
    (hk : ∀ r tr' w', r ∈ T.rows w'.store → p r → Saw tr' (T.record r) → tr <:+ tr' →
      (columnHolding codec).Inside q D s tr' w' → (columnHolding codec).Runs q (f r) .idle tr' w' Q) :
    (columnHolding codec).Runs q ((fetchOr msg err (T.select p)).bind f) .idle tr w Q := by
  refine Holding.runs_bind (Holding.runs_bind (Holding.runs_bind (Holding.runs_read
    (fun _ _ he => by cases he; rfl) h (fun w₁ e he h₁ => ?_) fun _ _ => Holding.runs_fail)))
  cases he
  refine Holding.runs_pure (Holding.runs_pure ?_)
  cases hrow : ((T.rows w₁.store).filter p).head? with
  | none => exact Holding.runs_fail
  | some r =>
      have hmem := List.mem_of_mem_head? hrow
      obtain ⟨hr, hp⟩ := List.mem_filter.mp hmem
      refine Holding.runs_pure (hk r _ w₁ hr hp ?_ ⟨[_, _], rfl⟩ h₁)
      exact (saw_ran (List.mem_map_of_mem hmem)).cons

theorem shared_beginTx_bind {f : Unit → Handler ι α} (h : (columnHolding codec).Inside q D s tr w)
    (hk : ∀ w', (columnHolding codec).Inside q D s tr w' →
      (columnHolding codec).Runs q (f ()) (.active []) tr w' Q) :
    (columnHolding codec).Runs q ((beginTx msg).bind f) .idle tr w Q :=
  Holding.runs_begin h hk fun _ _ => Holding.runs_fail

theorem shared_query_bind {st : Stmt (Db ι) (Rec ι) β} (h : (columnHolding codec).Inside q D s tr w)
    (hk : ∀ w₁ e, st ((kanban ι).applyAll w₁.store ws) = some e →
      (columnHolding codec).Inside q D s (.ran e.read :: tr) w₁ →
      (columnHolding codec).Runs q (f e.answer) (.active (ws ++ e.writes)) (.ran e.read :: tr) w₁ Q) :
    (columnHolding codec).Runs q ((query msg st).bind f) (.active ws) tr w Q :=
  Holding.runs_stmt h hk fun _ _ => Holding.runs_fail

theorem shared_fetchOne_bind {st : Stmt (Db ι) (Rec ι) (List β)}
    (h : (columnHolding codec).Inside q D s tr w)
    (hk : ∀ w₁ e b, st ((kanban ι).applyAll w₁.store ws) = some e → e.answer.head? = some b →
      (columnHolding codec).Inside q D s (.ran e.read :: tr) w₁ →
      (columnHolding codec).Runs q (f b) (.active (ws ++ e.writes)) (.ran e.read :: tr) w₁ Q) :
    (columnHolding codec).Runs q ((fetchOne msg st).bind f) (.active ws) tr w Q := by
  refine Holding.runs_bind (shared_query_bind h fun w₁ e he h₁ => ?_)
  cases hb : e.answer.head? with
  | none => exact Holding.runs_fail
  | some b => exact Holding.runs_pure (hk w₁ e b he hb h₁)

/-- A part of a transaction that is about no card. -/
theorem shared_careful_bind {p : Handler ι β} (hp : Careful p)
    (h : (columnHolding codec).Inside q D s tr w)
    (hk : ∀ b ws' tr' w', tr <:+ tr' → (∀ a ∈ ws', Beside a) →
      (columnHolding codec).Inside q D s tr' w' →
      (columnHolding codec).Runs q (f b) (.active (ws ++ ws')) tr' w' Q) :
    (columnHolding codec).Runs q (p.bind f) (.active ws) tr w Q := by
  refine Holding.runs_bind ((Holding.Runs.of_strict hp h (List.forall_mem_nil _)
    fun ws ws' hws hws' => List.forall_mem_append.mpr ⟨hws, hws'⟩).mono ?_)
  rintro b tx tr' w' ⟨htr, h', ws', rfl, hws'⟩
  exact hk b ws' tr' w' htr hws' h'

theorem quiet_tidy {db : Db ι} {ws : List (Write (Rec ι))} (hws : Quiet ws) (h : Tidy db) :
    Grown db ((kanban ι).applyAll db ws) ∧ Tidy ((kanban ι).applyAll db ws) := by
  have hputs : PutsIn "" (fun _ : ι => False) ws := .of_beside hws.beside
  exact ⟨hputs.grown, h.commit hputs (l := []) (fun _ h => h.elim) (fun _ h => h.elim)
    fun _ _ => List.nodup_nil⟩

/-- After the commit: a program that writes keys at most. -/
theorem shared_tame_bind {p : Handler ι β} (hp : Tame p) (h : (columnHolding codec).Outside s w)
    (hk : ∀ b tr' w', (columnHolding codec).Outside s w' →
      (columnHolding codec).Runs q (f b) .idle tr' w' Q) :
    (columnHolding codec).Runs q (p.bind f) .idle tr w Q :=
  Holding.runs_bind ((Holding.Runs.of_only_outside hp h fun _ _ => quiet_tidy).mono
    fun b _ tr' w' ⟨htx, h'⟩ => htx ▸ hk b tr' w' h')

/-- The card of a response is in the database. -/
def Present (codec : IdCodec ι) (card : Card) (db : Db ι) : Prop :=
  ∃ c ∈ db.cards, codec.toString c.id = card.id

omit [DecidableEq ι] in
theorem Grown.present {db db' : Db ι} {row : CardRow ι} (h : Grown db db') (hrow : row ∈ db.cards)
    {labels : List Label} {assignees : List String} {checklist : List ChecklistItem}
    {related : CardAggregates} :
    Present codec (cardFromRow codec row labels assignees checklist related) db' := by
  obtain ⟨c, hc, hid⟩ := h.cards row hrow
  exact ⟨c, hc, congrArg codec.toString hid⟩

/-- The answer of the calls is a card that is there. -/
theorem shared_fetchFullCard {t : String} {x : ι} (h : (columnHolding codec).Outside s w) :
    (columnHolding codec).Runs q (fetchFullCard codec t x) .idle tr w
      fun card _ _ w' => Present codec card w'.store := by
  refine Holding.runs_bind (Holding.runs_bind (Holding.runs_bind (Holding.runs_read_outside
    (fun _ _ he => by cases he; rfl) h (fun w₁ tr₁ e he h₁ => ?_) fun _ _ _ => Holding.runs_fail)))
  cases he
  refine Holding.runs_pure (Holding.runs_pure ?_)
  cases hrow : ((Db.cardsT.rows w₁.store).filter fun c => decide (c.id = x ∧ c.tenantId = t)).head? with
  | none => exact Holding.runs_fail
  | some row =>
      have hmem : row ∈ w₁.store.cards := (List.mem_filter.mp (List.mem_of_mem_head? hrow)).1
      have h₁ : (columnHolding codec).Outside w₁.store w₁ := ⟨.refl, h₁.sane⟩
      refine Holding.runs_pure (shared_tame_bind (.bind (.fetchAll ?_) fun _ => .pure _) h₁
        fun _ _ _ h₂ => shared_tame_bind (.bind (.fetchAll ?_) fun _ => .pure _) h₂
        fun _ _ _ h₃ => shared_tame_bind (.bind (.fetchAll ?_) fun _ => .pure _) h₃
        fun _ _ _ h₄ => shared_tame_bind (.bind (.fetchAll ?_) fun _ => .pure _) h₄
        fun _ _ _ h₅ => shared_tame_bind (.bind (.fetchAll ?_) fun _ => .pure _) h₅
        fun _ _ _ h₆ => shared_tame_bind (.bind (.fetchAll ?_) fun _ => .pure _) h₆
        fun _ _ _ h₇ => shared_tame_bind (.bind (.fetchAll ?_) fun _ => .pure _) h₇
        fun _ _ _ h₈ => Holding.runs_pure (h₈.grows.present hmem))
      all_goals rintro db e ⟨⟩; rfl

end Rules

/-! ## Pending writes -/

/-- The pending writes of a transaction put cards of the tenant in the columns `D`; on top of the
store `s` they make the cards of these columns those of `l`. -/
structure Pending (t : String) (D : ι → Prop) (s : Db ι) (ws : List (Write (Rec ι)))
    (l : List (CardRow ι)) : Prop where
  puts : PutsIn t D ws
  view : SameCards D ((kanban ι).applyAll s ws).cards l

section Pending

variable {codec : IdCodec ι} {q : RequestContext × SharingCall} {t msg : String} {D : ι → Prop}
  {s : Db ι} {tr : Trace (Rec ι) (Call ι) (Reply ι)} {w : World (Db ι) (Backend ι)}
  {ws ws' : List (Write (Rec ι))} {l : List (CardRow ι)} {K x : ι}

/-- The cards of the columns that the call holds, as a statement of its transaction sees them. -/
theorem inside_view (h : (columnHolding codec).Inside q D s tr w) :
    SameCards D ((kanban ι).applyAll s ws).cards ((kanban ι).applyAll w.store ws).cards :=
  SameCards.applyAll (fun c hc => h.same c.columnId hc c rfl) ws

theorem Pending.start (h : ∀ a ∈ ws, Beside a) : Pending t D s ws s.cards :=
  ⟨.of_beside h, by
    rw [show ((kanban ι).applyAll s ws).cards = s.cards from congrArg Shelves.cards
      (shelves_applyAll h)]
    exact .refl⟩

theorem Pending.beside (h : Pending t D s ws l) (h' : ∀ a ∈ ws', Beside a) :
    Pending t D s (ws ++ ws') l := by
  refine ⟨h.puts.append (.of_beside h'), ?_⟩
  rw [Semantics.applyAll_append, show ((kanban ι).applyAll ((kanban ι).applyAll s ws) ws').cards =
    ((kanban ι).applyAll s ws).cards from congrArg Shelves.cards (shelves_applyAll h')]
  exact h.view

/-- A statement of the transaction that makes the cards that it sees those of `l'`. -/
theorem Pending.step {l' : List (CardRow ι)} (h : Pending t D s ws l)
    (hin : (columnHolding codec).Inside q D s tr w) (hputs : PutsIn t D ws')
    (hl : SameCards D ((kanban ι).applyAll w.store ws).cards l →
      SameCards D ((kanban ι).applyAll ((kanban ι).applyAll w.store ws) ws').cards l') :
    Pending t D s (ws ++ ws') l' := by
  refine ⟨h.puts.append hputs, (inside_view hin).trans ?_⟩
  rw [Semantics.applyAll_append]
  exact hl ((inside_view hin).symm.trans h.view)

theorem Pending.shift {p : ℤ → Bool} {delta : ℤ} {e : Effect (Rec ι) (List (CardRow ι))}
    (h : Pending t D s ws l) (hin : (columnHolding codec).Inside q D s tr w)
    (he : shiftCards t K p delta ((kanban ι).applyAll w.store ws) = some e) (hK : D K) :
    Pending t D s (ws ++ e.writes) (Shift.apply ⟨K, p, delta⟩ t l) ∧ Shift.Fits ⟨K, p, delta⟩ t l := by
  have hview := (inside_view hin).symm.trans h.view
  have hkeyed : Keyed ((kanban ι).applyAll w.store ws) := Keyed.applyAll hin.sane.keyed ws
  obtain ⟨hcards, hfits⟩ := cards_shiftCards hkeyed he
  refine ⟨h.step hin (fun a ha => ?_) fun hv => ?_, hview.fits hK hfits⟩
  · obtain ⟨c, c', hp, -, hc', rfl⟩ := Table.mem_writes_updateChecked he ha
    obtain ⟨n, -, rfl⟩ := Option.map_eq_some_iff.mp hc'
    obtain ⟨rfl, rfl, -⟩ : c.columnId = K ∧ c.tenantId = t ∧ p c.position = true := by
      simpa using hp
    exact ⟨fun c₁ hc₁ => by cases hc₁; exact ⟨rfl, hK, rfl⟩, nofun⟩
  · rw [hcards]
    exact hv.shift

theorem Pending.update {f : CardRow ι → CardRow ι} {e : Effect (Rec ι) (List (CardRow ι))}
    {row : CardRow ι} (h : Pending t D s ws l) (hin : (columnHolding codec).Inside q D s tr w)
    (he : updateCardRow t x f ((kanban ι).applyAll w.store ws) = some e)
    (hrow : e.answer.head? = some row) (hid : ∀ c, (f c).id = c.id)
    (ht : ∀ c, (f c).tenantId = c.tenantId) (hD : ∀ c, D (f c).columnId) :
    Pending t D s (ws ++ e.writes) (row :: otherCards l x) ∧ row.id = x ∧ row.tenantId = t ∧
      ∃ c, row = f c := by
  have hkeyed : Keyed ((kanban ι).applyAll w.store ws) := Keyed.applyAll hin.sane.keyed ws
  obtain ⟨c, -, rfl, rfl, rfl, hperm⟩ := cards_updateCardRow hkeyed he hid hrow
  refine ⟨h.step hin (fun a ha => ?_) fun hv c' hc' => ?_, hid c, ht c, c, rfl⟩
  · obtain ⟨c₁, hp, -, rfl⟩ := Table.mem_writes_update he ha
    obtain ⟨-, hct⟩ : c₁.id = c.id ∧ c₁.tenantId = c.tenantId := by simpa using hp
    exact ⟨fun c₂ hc₂ => by cases hc₂; exact ⟨rfl, hD c₁, (ht c₁).trans hct⟩, nofun⟩
  · rw [hperm.mem_iff]
    exact hv.put c' hc'

theorem Pending.insert {e : Effect (Rec ι) Unit} {row : CardRow ι} (h : Pending t D s ws l)
    (hin : (columnHolding codec).Inside q D s tr w)
    (he : insertCard row ((kanban ι).applyAll w.store ws) = some e) (ht : row.tenantId = t)
    (hD : D row.columnId) : Pending t D s (ws ++ e.writes) (row :: otherCards l row.id) := by
  refine h.step hin (fun a ha => ?_) fun hv c hc => ?_
  · unfold insertCard at he
    split at he
    · cases he
    · rw [Table.writes_insert he] at ha
      cases List.mem_singleton.mp ha
      exact ⟨fun c₁ hc₁ => by cases hc₁; exact ⟨rfl, hD, ht⟩, nofun⟩
  · rw [(cards_insertCard he).1.mem_iff]
    exact hv.put c hc

/-- The commit. -/
theorem Pending.commit (h : Pending t D s ws l) (hl : CardsApart l)
    (hin : (columnHolding codec).Inside q D s tr w)
    (hD : ∀ K, D K → ∃ k ∈ s.columns, k.id = K ∧ k.tenantId = t) :
    Grown w.store ((kanban ι).applyAll w.store ws) ∧ Tidy ((kanban ι).applyAll w.store ws) := by
  refine ⟨h.puts.grown, Tidy.commit hin.sane h.puts (fun K hK => ?_)
    ((inside_view hin).symm.trans h.view) hl⟩
  rw [hin.grows.columns]
  exact hD K hK

end Pending

/-! ## The calls -/

section Calls

variable {codec : IdCodec ι} {pages : ℕ} {q : RequestContext × SharingCall} {t msg : String}
  {D : ι → Prop} {s : Db ι} {tr : Trace (Rec ι) (Call ι) (Reply ι)}
  {w : World (Db ι) (Backend ι)} {ws : List (Write (Rec ι))} {l : List (CardRow ι)} {K x : ι}
  {Q : α → Tx (Rec ι) → Trace (Rec ι) (Call ι) (Reply ι) → World (Db ι) (Backend ι) → Prop}

/-- The commit of a transaction that has put its card where the shifts have made room. -/
theorem shared_commitTx_bind {f : Unit → Handler ι α} (shifts : List (Shift ι)) {row : CardRow ι}
    (hin : (columnHolding codec).Inside q D s tr w)
    (hp : Pending t D s ws (row :: otherCards (shiftAll t shifts l) row.id))
    (hfits : ∀ s ∈ shifts, s.Fits t l) (ht : row.tenantId = t)
    (hput : Puts t shifts row l (row :: otherCards (shiftAll t shifts l) row.id) →
      ∃ i, PutAt row i l (row :: otherCards (shiftAll t shifts l) row.id))
    (hD : ∀ K, D K → ∃ k ∈ s.columns, k.id = K ∧ k.tenantId = t)
    (hk : ∀ w', (columnHolding codec).Outside s w' →
      (columnHolding codec).Runs q (f ()) .idle (.committed ws :: tr) w' Q) :
    (columnHolding codec).Runs q ((commitTx msg).bind f) (.active ws) tr w Q := by
  obtain ⟨i, hi⟩ := hput ⟨ht, hfits, List.Perm.refl _⟩
  exact Holding.runs_commit hin (fun w₁ h₁ => hp.commit hi.apart h₁ hD) hk
    fun _ _ => Holding.runs_fail

/-- The reference of a card. -/
theorem shared_allocateCardRef_bind {projectId : ι} {f : String → Handler ι α}
    (h : (columnHolding codec).Inside q D s tr w)
    (hk : ∀ cardRef ws' tr' w', Allocated tr' = true → (∀ a ∈ ws', Beside a) →
      (columnHolding codec).Inside q D s tr' w' →
      (columnHolding codec).Runs q (f cardRef) (.active (ws ++ ws')) tr' w' Q) :
    (columnHolding codec).Runs q ((allocateCardRef t projectId).bind f) (.active ws) tr w Q := by
  refine Holding.runs_bind (shared_query_bind h fun w₁ e he h₁ => ?_)
  cases he
  refine shared_fetchOne_bind h₁ fun w₂ e ref he href h₂ => Holding.runs_pure ?_
  rw [List.append_nil]
  unfold nextCardRef at he
  split at he
  · cases he
    cases href
  · obtain ⟨e', he', rfl⟩ := Option.map_eq_some_iff.mp he
    refine hk _ _ _ w₂ ?_ (fun a ha => ?_) h₂
    · exact List.any_eq_true.mpr ⟨_, Trace.mem_seen.mpr (saw_ran List.mem_cons_self), rfl⟩
    · obtain ⟨r, rfl | rfl⟩ := Table.within_upsert _ e' he' a ha <;> trivial

omit [DecidableEq ι] in
theorem uncommitted_iff {tr : Trace (Rec ι) (Call ι) (Reply ι)} :
    Uncommitted tr = true ↔ ∀ ws, .committed ws ∈ tr → ws = [] := by
  unfold Uncommitted
  rw [List.all_eq_true]
  refine ⟨fun h ws hws => List.isEmpty_iff.mp (h _ hws), fun h e he => ?_⟩
  cases e with
  | committed ws => exact List.isEmpty_iff.mpr (h ws he)
  | _ => rfl

/-- The shifts of a move. -/
theorem shared_shiftForMove_bind {card : CardRow ι} {toPos : ℤ} {f : Unit → Handler ι α}
    (h : (columnHolding codec).Inside q D s tr w) (hp : Pending t D s ws l)
    (hfrom : D card.columnId) (hto : D K)
    (hk : ∀ ws' tr' w', (columnHolding codec).Inside q D s tr' w' →
      Pending t D s ws' (shiftAll t (moveShifts card K toPos) l) →
      (∀ s ∈ moveShifts card K toPos, s.Fits t l) →
      (columnHolding codec).Runs q (f ()) (.active ws') tr' w' Q) :
    (columnHolding codec).Runs q ((shiftForMove t card K toPos).bind f) (.active ws) tr w Q := by
  have hone : ∀ {msg : String} (sh : Shift ι), D sh.columnId → moveShifts card K toPos = [sh] →
      (columnHolding codec).Runs q (((query msg (shiftCards t sh.columnId sh.range sh.delta)).bind
        fun _ => .pure ()).bind f) (.active ws) tr w Q := by
    intro msg sh hsh hshifts
    refine Holding.runs_bind (shared_query_bind h fun w₁ e he h₁ => Holding.runs_pure ?_)
    obtain ⟨hp₁, hfits⟩ := hp.shift h₁ he hsh
    rw [hshifts] at hk
    exact hk _ _ w₁ h₁ hp₁ (by simpa using hfits)
  unfold shiftForMove
  by_cases hK : card.columnId = K
  · rw [if_pos hK]
    rcases lt_trichotomy card.position toPos with hlt | heq | hgt
    · rw [if_neg hlt.ne, if_pos hlt]
      refine hone ⟨card.columnId, fun p => card.position < p ∧ p ≤ toPos, -1⟩ hfrom ?_
      rw [moveShifts, if_pos hK, if_neg hlt.ne, if_pos hlt]
    · rw [if_pos heq]
      rw [moveShifts, if_pos hK, if_pos heq] at hk
      exact hk _ _ w h hp (List.forall_mem_nil _)
    · rw [if_neg hgt.ne', if_neg hgt.not_gt]
      refine hone ⟨card.columnId, fun p => toPos ≤ p ∧ p < card.position, 1⟩ hfrom ?_
      rw [moveShifts, if_pos hK, if_neg hgt.ne', if_neg hgt.not_gt]
  · rw [if_neg hK]
    rw [moveShifts, if_neg hK] at hk
    refine Holding.runs_bind (shared_query_bind h fun w₁ e he h₁ => ?_)
    obtain ⟨hp₁, hfits₁⟩ := hp.shift h₁ he hfrom
    refine shared_query_bind h₁ fun w₂ e₂ he₂ h₂ => Holding.runs_pure ?_
    obtain ⟨hp₂, hfits₂⟩ := hp₁.shift h₂ he₂ hto
    refine hk _ _ w₂ h₂ hp₂ ?_
    simp only [List.mem_cons, List.not_mem_nil, or_false, forall_eq_or_imp, forall_eq]
    exact ⟨hfits₁, (Shift.fits_apply fun heq => hK heq.symm).mp hfits₂⟩

end Calls

end Kanban.Rpc
