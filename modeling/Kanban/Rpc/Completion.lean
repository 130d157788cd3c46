import Kanban.Rpc.OrderedRuns

/-!
# When a card was completed

A card is completed when it is put in a column that is marked done, and it stays completed since
then as long as it stays in such columns.  Each call is described by what has become of each card:
it was left where it is, put in another column, or created.

## Main definitions

* `CompletionCall`, `completionHandler` — the calls.
* `Restamped`, `Restamps` — what a call does to the time at which a card was completed.
* `Completed` — a card has such a time if its column is marked done, and only then.
* `InDone` — the card stands in a column that is marked done.
-/

namespace Kanban.Rpc

open Program Kanban.Store Kanban.Auth
open Kanban.Services (AuthContext ConnectError IdCodec)

variable {ι α : Type} [DecidableEq ι]

/-- A call that creates, changes, moves or deletes a card. -/
inductive CompletionCall
  | ordering (call : OrderingCall)
  | updateCard (req : UpdateCardRequest)
  deriving DecidableEq, Repr

/-- The handler of a call, without its response. -/
def completionHandler (codec : IdCodec ι) (pages : ℕ) (q : RequestContext × CompletionCall) :
    Handler ι Unit :=
  match q.2 with
  | .ordering call => orderingHandler codec pages (q.1, call)
  | .updateCard req => (updateCard codec q.1 req).bind fun _ => .pure ()

/-! ## What becomes of a card -/

/-- Where the row `c'` of a card comes from. -/
inductive Restamped (columns : List (ColumnRow ι)) (cards : List (CardRow ι)) (c' : CardRow ι) : Prop
  | kept {c : CardRow ι} (hc : c ∈ cards) (hid : c.id = c'.id) (htenant : c.tenantId = c'.tenantId)
      (hcolumn : c.columnId = c'.columnId) (hcompleted : c'.completedAt = c.completedAt)
  | placed {c : CardRow ι} {target : ColumnRow ι} {now : ℤ} {fromIsDone : Bool} (hc : c ∈ cards)
      (htarget : target ∈ columns) (htenant : c.tenantId = c'.tenantId)
      (hcolumn : target.tenantId = c'.tenantId)
      (hread : ReadsDone columns c.tenantId c.columnId target fromIsDone)
      (hrow : PlacedRow now c target fromIsDone c')
  | created {target : ColumnRow ι} {now : ℤ} (htarget : target ∈ columns)
      (htenant : target.tenantId = c'.tenantId) (hcolumn : c'.columnId = target.id)
      (hfresh : ∀ c ∈ cards, c.id ≠ c'.id)
      (hcompleted : c'.completedAt = if target.isDone then some now else none)

/-- The columns are as they were, and every card comes from somewhere. -/
def Restamps (sh sh' : Shelves ι) : Prop :=
  sh'.columns = sh.columns ∧ ∀ c' ∈ sh'.cards, Restamped sh.columns sh.cards c'

section Restamps

variable {columns : List (ColumnRow ι)} {cards cards' : List (CardRow ι)} {t : String}
  {shifts : List (Shift ι)} {row : CardRow ι}

theorem Restamps.refl (sh : Shelves ι) : Restamps sh sh :=
  ⟨rfl, fun _ hc => .kept hc rfl rfl rfl rfl⟩

/-- All cards but the one that is put come from where they were. -/
theorem Puts.restamped (h : Puts t shifts row cards cards') (hrow : Restamped columns cards row) :
    ∀ c' ∈ cards', Restamped columns cards c' := by
  intro c' hc'
  rcases List.mem_cons.mp (h.cards.mem_iff.mp hc') with rfl | hc'
  · exact hrow
  · obtain ⟨c, hc, heq⟩ := exists_of_mem_shiftAll (List.mem_filter.mp hc').1
    rw [heq]
    exact .kept hc rfl rfl rfl rfl

end Restamps

/-! ## The handlers -/

section Handlers

variable {codec : IdCodec ι} {pages : ℕ} {ctx : RequestContext} {db v : Db ι}

/-- A row is changed outside of every transaction. -/
theorem solo_fetchOr_update_bind {P : Shelves ι → Prop} {msg t : String} {err : ConnectError} {x : ι}
    {f : CardRow ι → CardRow ι} {g : CardRow ι → Handler ι α} {Q : α → Tx (Rec ι) → Db ι → Prop}
    (hv : Keyed v) (hf : ∀ c, (f c).id = c.id)
    (hP : ∀ sh : Shelves ι, sh.columns = v.columns →
      (sh.cards = v.cards.map fun c => if c.id = x ∧ c.tenantId = t then f c else c) → P sh)
    (h : ∀ row v', P v'.shelves → Solo (kanban ι) (fun v => P v.shelves) (g row) .idle v' Q) :
    Solo (kanban ι) (fun v => P v.shelves) ((fetchOr msg err (updateCardRow t x f)).bind g) .idle v Q := by
  refine solo_bind (solo_bind (solo_bind (solo_stmt_idle (fun e he => ?_) solo_fail)))
  have hdone : P ((kanban ι).applyAll v e.writes).shelves := by
    refine hP _ (columns_of_within Table.within_update he)
      ((stored_cards.rows_update same_cards he hf hv).trans (List.map_congr_left fun c _ => ?_))
    simp only [decide_eq_true_eq]
  refine ⟨.inr hdone, solo_pure (solo_pure ?_)⟩
  cases e.answer.head? with
  | none => exact solo_fail
  | some row => exact solo_pure (h row _ hdone)

theorem solo_updateCard {req : UpdateCardRequest} (hdb : Keyed db) :
    Solo (kanban ι) (fun v => Restamps db.shelves v.shelves) (updateCard codec ctx req) .idle db
      fun _ _ _ => True := by
  refine solo_orError_bind fun objectId _ => solo_orError_bind fun cardId _ =>
    solo_orError_bind fun t _ => solo_checkIdempotencyCard_bind ?_
  cases keyCard db t req.idempotencyKey with
  | some existingId => exact solo_mute .fetchFullCard fun _ => trivial
  | none =>
      refine solo_fetchOr_bind fun cur _ _ => solo_tame_bind .milestonePatch (Restamps.refl _)
        fun milestone v₁ h₁ => ?_
      have hcards₁ : v₁.cards = db.cards := congrArg Shelves.cards h₁
      have hcols₁ : v₁.columns = db.columns := congrArg Shelves.columns h₁
      have hv₁ : Keyed v₁ := by
        unfold Keyed
        rw [hcards₁]
        exact hdb
      refine solo_fetchOr_update_bind hv₁ (fun _ => rfl) (fun sh hcols hcards => ?_) fun row v₂ h₂ => ?_
      · refine ⟨hcols.trans hcols₁, fun c' hc' => ?_⟩
        rw [hcards, hcards₁] at hc'
        obtain ⟨c, hc, rfl⟩ := List.mem_map.mp hc'
        split <;> exact .kept hc rfl rfl rfl rfl
      · refine solo_beginTx_bind (Careful.insertBoardEvent.soloTx.bind_soloIn fun _ v₃ h₃ => ?_)
        have h₃ : Restamps db.shelves v₃.shelves := by
          rw [h₃]
          exact h₂
        exact soloIn_commitTx_bind h₃ (solo_tame (.bind .storeIdempotencyId fun _ => .fetchFullCard) h₃
          fun _ _ _ => trivial)

/-- **What a call does** to the time at which a card was completed, when it runs alone. -/
theorem solo_completionHandler {q : RequestContext × CompletionCall} (hdb : Keyed db) :
    Solo (kanban ι) (fun v => Restamps db.shelves v.shelves) (completionHandler codec pages q) .idle db
      fun _ _ _ => True := by
  have hreply : ∀ {β : Type} {p : Handler ι β} {Q : β → Tx (Rec ι) → Db ι → Prop},
      Solo (kanban ι) (fun v => Restamps db.shelves v.shelves) p .idle db Q →
      Solo (kanban ι) (fun v => Restamps db.shelves v.shelves) (p.bind fun _ => .pure ()) .idle db
        fun _ _ _ => True := fun hp => solo_bind (hp.mono fun _ _ _ _ => solo_pure trivial)
  obtain ⟨ctx, call⟩ := q
  cases call with
  | updateCard req => exact hreply (solo_updateCard hdb)
  | ordering call =>
      cases call with
      | createCard req =>
          refine hreply (solo_createCard_of hdb fun t column sh row _ _ hcolumn hkt hcols hrow hputs => ?_)
          exact ⟨hcols, hputs.restamped (.created hcolumn (hkt.trans hputs.tenant.symm) hrow.columnId_eq
            hrow.fresh hrow.completed)⟩
      | moveCard req =>
          refine hreply (solo_moveCard_of hdb fun t card target fromIsDone sh row _ _ _ hcard hct htarget
            hkt hread hcols hrow _ hputs => ?_)
          subst hct
          exact ⟨hcols, hputs.restamped (.placed hcard htarget hputs.tenant.symm
            (hkt.trans hputs.tenant.symm) hread hrow)⟩
      | transferCard req =>
          refine hreply (solo_transferCard_of hdb fun t card target fromIsDone sh row _ _ _ hcard hct
            htarget hkt hread hcols hrow _ _ hputs => ?_)
          subst hct
          exact ⟨hcols, hputs.restamped (.placed hcard htarget hputs.tenant.symm
            (hkt.trans hputs.tenant.symm) hread hrow)⟩
      | deleteCard =>
          refine (solo_deleteCard_of hdb fun cardId sh _ hcols hcards => ⟨hcols, fun c' hc' => ?_⟩).mono
            fun _ _ _ _ => trivial
          rw [hcards] at hc'
          exact .kept (List.mem_filter.mp hc').1 rfl rfl rfl rfl

end Handlers

/-! ## The laws -/

/-- The column of every card exists, and a card was completed exactly if its column is marked done. -/
def Completed (db : Db ι) : Prop :=
  ∀ c ∈ db.cards, ∃ k ∈ db.columns, k.id = c.columnId ∧ k.tenantId = c.tenantId ∧
    (c.completedAt.isSome ↔ k.isDone = true)

/-- The card stands in a column that is marked done. -/
def InDone (db : Db ι) (x : ι) : Prop :=
  ∃ c ∈ db.cards, c.id = x ∧ ∃ k ∈ db.columns, k.id = c.columnId ∧ k.isDone = true

/-- The time at which the card was completed. -/
def CompletedAt (db : Db ι) (x : ι) (at' : Option ℤ) : Prop :=
  ∃ c ∈ db.cards, c.id = x ∧ c.completedAt = at'

section Laws

variable {db db' : Db ι} {x : ι} {at' : Option ℤ}

/-- Where the marker that was read comes from. -/
theorem ReadsDone.eq {columns : List (ColumnRow ι)} {t : String} {target k : ColumnRow ι}
    {fromIsDone : Bool} (hkeys : (columns.map ColumnRow.id).Nodup) (htarget : target ∈ columns)
    (hk : k ∈ columns) (ht : k.tenantId = t) (h : ReadsDone columns t k.id target fromIsDone) :
    fromIsDone = k.isDone := by
  rcases h with ⟨hid, rfl⟩ | rfl
  · rw [List.inj_on_of_nodup_map hkeys hk htarget hid]
  · cases hrow : (columns.filter fun k' => k'.id = k.id ∧ k'.tenantId = t).head? with
    | none =>
        have := List.filter_eq_nil_iff.mp (List.head?_eq_none_iff.mp hrow) k hk
        simp [ht] at this
    | some k' =>
        obtain ⟨hk', hp⟩ := List.mem_filter.mp (List.mem_of_mem_head? hrow)
        obtain ⟨hid, -⟩ : k'.id = k.id ∧ k'.tenantId = t := by simpa using hp
        rw [List.inj_on_of_nodup_map hkeys hk' hk hid]
        rfl

theorem Completed.restamps (hkeys : (db.columns.map ColumnRow.id).Nodup) (hdb : Completed db)
    (h : Restamps db.shelves db'.shelves) : Completed db' := by
  obtain ⟨hcols, hcards⟩ := h
  have hcols : db'.columns = db.columns := hcols
  unfold Completed
  rw [hcols]
  intro c' hc'
  cases hcards c' hc' with
  | kept hc hid htenant hcolumn hcompleted =>
      rw [← htenant, ← hcolumn, hcompleted]
      exact hdb _ hc
  | @placed c target now fromIsDone hc htarget htenant hcolumn hread hrow =>
      obtain ⟨k, hk, hkid, hkt, hiff⟩ := hdb c hc
      rw [← hkid, ← hkt] at hread
      have hfrom := hread.eq hkeys htarget hk rfl
      refine ⟨target, htarget, hrow.columnId_eq.symm, hcolumn, ?_⟩
      rw [hrow.completed, completedAfter, hfrom]
      cases htd : target.isDone with
      | true => simp
      | false =>
          cases hkd : k.isDone with
          | true => simp
          | false =>
              rw [hkd] at hiff
              simpa using hiff
  | @created target now htarget htenant hcolumn hfresh hcompleted =>
      refine ⟨target, htarget, hcolumn.symm, htenant, ?_⟩
      rw [hcompleted]
      cases target.isDone <;> simp

/-- A card that stays in columns marked done keeps its time. -/
theorem CompletedAt.restamps (hkeys : (db.columns.map ColumnRow.id).Nodup) (hcards : Keyed db)
    (hdb : Completed db) (h : Restamps db.shelves db'.shelves) (hin : InDone db x)
    (hin' : InDone db' x) (hat : CompletedAt db x at') : CompletedAt db' x at' := by
  obtain ⟨hcols, hfrom⟩ := h
  have hcols : db'.columns = db.columns := hcols
  obtain ⟨c, hc, rfl, rfl⟩ := hat
  obtain ⟨c₀, hc₀, hid₀, k₀, hk₀, hkid₀, hdone₀⟩ := hin
  obtain rfl := hcards.eq_of_mem hc₀ hc hid₀
  obtain ⟨c', hc', hid', k', hk', hkid', hdone'⟩ := hin'
  refine ⟨c', hc', hid', ?_⟩
  cases hfrom c' hc' with
  | @kept c₁ hc₁ hid _ _ hcompleted =>
      rw [hcompleted, hcards.eq_of_mem hc₁ hc (hid.trans hid')]
  | @placed c₁ target now fromIsDone hc₁ htarget _ _ _ hrow =>
      obtain rfl := hcards.eq_of_mem hc₁ hc (hrow.id_eq.symm.trans hid')
      have htd : target.isDone = true := by
        rw [hcols] at hk'
        rw [List.inj_on_of_nodup_map hkeys htarget hk' (hrow.columnId_eq.symm.trans hkid'.symm), hdone']
      obtain ⟨k, hk, hkid, -, hiff⟩ := hdb c₁ hc
      have hsome : c₁.completedAt.isSome := by
        rw [hiff, List.inj_on_of_nodup_map hkeys hk hk₀ (hkid.trans hkid₀.symm), hdone₀]
      obtain ⟨at₁, hat₁⟩ := Option.isSome_iff_exists.mp hsome
      rw [hrow.completed, completedAfter, if_pos htd, hat₁]
      rfl
  | created _ _ _ hfresh _ => exact absurd hid'.symm (hfresh c₀ hc)

variable {codec : IdCodec ι} {pages : ℕ} {w w' w'' : World (Db ι) (Backend ι)}
  {calls calls' : List ((RequestContext × CompletionCall) × List (Act (Move ι)))}

/-- What holds before every call of a serial run. -/
structure Stamped (columns : List (ColumnRow ι)) (db : Db ι) : Prop where
  columns_eq : db.columns = columns
  keyed : Keyed db
  completed : Completed db

/-- One call. -/
theorem Stamped.step {columns : List (ColumnRow ι)} (hkeys : (columns.map ColumnRow.id).Nodup)
    (h : Stamped columns w.store) {call : (RequestContext × CompletionCall) × List (Act (Move ι))}
    (hs : serialStep (kanban ι) (completionHandler codec pages) w call = some w') :
    Stamped columns w'.store ∧ Restamps w.store.shelves w'.store.shelves := by
  obtain ⟨⟨th, w₁⟩, hth, rfl⟩ := Option.map_eq_some_iff.mp hs
  have hrestamps : Restamps w.store.shelves w₁.store.shelves := by
    rcases ((solo_completionHandler h.keyed).exec (Machine.exec_of_run hth)).1 with hsame | hdone
    · rw [hsame]
      exact Restamps.refl _
    · exact hdone
  have hcols : w₁.store.columns = w.store.columns := hrestamps.1
  refine ⟨⟨hcols.trans h.columns_eq, ?_, ?_⟩, hrestamps⟩
  · exact serial_of_writes (fun _ ws h => Keyed.applyAll h ws)
      (Machine.ExecWhile.cons trivial hs .nil) h.keyed
  · exact h.completed.restamps (by rw [h.columns_eq]; exact hkeys) hrestamps

/-- **Completion time.**  In every state that a serial run of the calls reaches, a card was completed
exactly if its column is marked done; and from there on, a card keeps the time as long as it stays in
columns that are marked done. -/
theorem completion_time (hkeys : (w.store.columns.map ColumnRow.id).Nodup) (hcards : Keyed w.store)
    (hstart : Completed w.store)
    (hrun : Machine.Exec (serialStep (kanban ι) (completionHandler codec pages)) w calls w') :
    Completed w'.store ∧ ∀ calls' w'' x at', Machine.ExecWhile
        (serialStep (kanban ι) (completionHandler codec pages)) (fun w _ => InDone w.store x) w' calls' w'' →
      InDone w''.store x → CompletedAt w'.store x at' → CompletedAt w''.store x at' := by
  have hstamped : Stamped w.store.columns w'.store :=
    hrun.invariant (fun w₁ => Stamped w.store.columns w₁.store) ⟨rfl, hcards, hstart⟩
      fun _ _ _ h hs => (h.step hkeys hs).1
  refine ⟨hstamped.completed, fun calls' w'' x at' hrun' => ?_⟩
  have key : Stamped w.store.columns w''.store ∧
      (InDone w''.store x → CompletedAt w'.store x at' → CompletedAt w''.store x at') := by
    induction hrun' with
    | nil => exact ⟨hstamped, fun _ h => h⟩
    | snoc _ hin hs ih =>
        obtain ⟨hnext, hrestamps⟩ := ih.1.step hkeys hs
        refine ⟨hnext, fun hin' hat => ?_⟩
        exact (ih.2 hin hat).restamps (by rw [ih.1.columns_eq]; exact hkeys) ih.1.keyed ih.1.completed
          hrestamps hin hin'
  exact key.2

end Laws

/-- A `CreateCard` at the end of a column of the board `b`. -/
def createsIn (columnId cardId event : String) :
    (RequestContext × CompletionCall) × List (Act (Move String)) :=
  ((annOn "b", .ordering (.createCard ⟨columnId, "Ship", "", 0, none, "", 0, "", 0⟩)),
    [.ok, .ok, .ok, .ok, .ok, .move (.fresh cardId), .ok, .ok, .ok, .move (.fresh event), .ok, .ok,
      .ok])

/-- A `MoveCard` at a time, into another column. -/
def movesInto (cardId columnId : String) (now : ℤ) (event : String) :
    (RequestContext × CompletionCall) × List (Act (Move String)) :=
  (({ annOn cardId with now := now }, .ordering (.moveCard ⟨columnId, 1, ""⟩)),
    List.replicate 9 .ok ++ [.move (.fresh event), .ok, .ok, .ok])

/-- A `MoveCard` at a time, from the first to the second position of its column. -/
def movesDown (cardId columnId : String) (now : ℤ) (event : String) :
    (RequestContext × CompletionCall) × List (Act (Move String)) :=
  (({ annOn cardId with now := now }, .ordering (.moveCard ⟨columnId, 2, ""⟩)),
    List.replicate 7 .ok ++ [.move (.fresh event), .ok, .ok, .ok])

instance {db : Db String} {x : String} : Decidable (InDone db x) :=
  inferInstanceAs (Decidable (∃ c ∈ db.cards, c.id = x ∧ ∃ k ∈ db.columns, k.id = c.columnId ∧ _))

instance {db : Db String} {x : String} {at' : Option ℤ} : Decidable (CompletedAt db x at') :=
  inferInstanceAs (Decidable (∃ c ∈ db.cards, c.id = x ∧ c.completedAt = at'))

/-- A card that is completed at the time 5 and then moved within the done column. -/
theorem completion_time_moved :
    ∃ w' w'', Machine.Exec (serialStep (kanban String) (completionHandler textIds 1)) twoColumns
        [createsIn "k" "c" "e", movesInto "c" "l" 5 "f"] w' ∧
      serialStep (kanban String) (completionHandler textIds 1) w' (movesDown "c" "l" 9 "g") = some w'' ∧
      CompletedAt w'.store "c" (some 5) ∧ CompletedAt w''.store "c" (some 5) := by
  obtain ⟨w', w'', hw', hw'', hin, hin', hat⟩ : ∃ w' w'',
      Machine.run (serialStep (kanban String) (completionHandler textIds 1)) twoColumns
        [createsIn "k" "c" "e", movesInto "c" "l" 5 "f"] = some w' ∧
      serialStep (kanban String) (completionHandler textIds 1) w' (movesDown "c" "l" 9 "g") = some w'' ∧
      InDone w'.store "c" ∧ InDone w''.store "c" ∧ CompletedAt w'.store "c" (some 5) :=
    ⟨_, _, rfl, rfl, by decide, by decide, by decide⟩
  have hrun := Machine.exec_of_run hw'
  refine ⟨w', w'', hrun, hw'', hat, ?_⟩
  have hstart : Completed twoColumns.store := by
    intro c hc
    cases hc
  exact (completion_time (by decide) (by decide) hstart hrun).2 _ w'' "c" _
    (.cons hin hw'' .nil) hin' hat

end Kanban.Rpc
