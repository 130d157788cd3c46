import Kanban.Lib.FieldMask
import Kanban.Rpc.EventRows
import Kanban.Rpc.Insertion

/-!
# What an update mask decides

A card, a column and an item of a checklist are updated with a patch and a mask.  The handlers read
the mask for three fields only; the others are set when the patch holds something, and an item is
done or not whatever the mask says.

## Main definitions

* `cardFields`, `columnFields`, `itemFields` — the fields, and when the handlers set them.
* `updates_patchCard`, `updates_patchColumn`, `updates_item` — what a call does to its row.
* `update_mask_iff` — when the law of the mask holds.
-/

namespace Kanban.Rpc

open Program FieldMask Kanban.Store Kanban.Auth
open Kanban.Services (AuthContext ConnectError IdCodec)

variable {ι α : Type} [DecidableEq ι]

/-! ## The fields -/

section Fields

variable (codec : IdCodec ι)

/-- The milestone that the patch names. -/
def milestonePatched (req : UpdateCardRequest) : Option ι :=
  if req.card.milestoneId = "" then none else codec.parse req.card.milestoneId

/-- The fields of a card.  An enumeration is read as its number, so what is taken for a number that is
not known is another one; a due date is read in nanoseconds, of which a row keeps the microseconds. -/
def cardFields : List (Field (CardRow ι) UpdateCardRequest) :=
  [⟨"title", String, (·.title), (·.card.title), (·.card.title), (·.card.title ≠ "")⟩,
    ⟨"description", String, (·.description.getD ""), (·.card.description), (·.card.description),
      (·.card.description ≠ "")⟩,
    ⟨"priority", ℤ, (priorityToI32 ·.priority), (·.card.priority),
      fun req => priorityToI32 (priorityFromI32 req.card.priority), (·.card.priority ≠ 0)⟩,
    ⟨"urgency", ℤ, (urgencyToI32 ·.urgency), (·.card.urgency),
      fun req => urgencyToI32 (urgencyFromI32 req.card.urgency), (·.card.urgency ≠ 0)⟩,
    ⟨"due", Option ℤ, (·.dueDate.map (· * 1000)), (·.card.due.map Timestamp.instant),
      fun req => (req.card.due.bind fromProtoTs).map (· * 1000),
      fun req => (req.card.due.bind fromProtoTs).isSome⟩,
    ⟨"blocked", Bool, (·.blocked), (·.card.blocked), (·.card.blocked),
      fun req => req.card.blocked ∨ "blocked" ∈ req.updateMask⟩,
    ⟨"cover", String, (·.cover.getD ""), (·.card.cover), (·.card.cover), (·.card.cover ≠ "")⟩,
    ⟨"milestone_id", Option ι, (·.milestoneId), milestonePatched codec, milestonePatched codec,
      fun req => req.card.milestoneId ≠ "" ∨ "milestone_id" ∈ req.updateMask⟩]

/-- A card without its fields and without its revision, which every update changes. -/
def cardRest (c : CardRow ι) : CardRow ι :=
  { c with
    title := "", description := none, priority := "", urgency := "", dueDate := none
    blocked := false, cover := none, milestoneId := none, revision := 0 }

/-- The fields of a column. -/
def columnFields : List (Field (ColumnRow ι) UpdateColumnRequest) :=
  [⟨"title", String, (·.title), (·.column.title), (·.column.title), (·.column.title ≠ "")⟩,
    ⟨"accent", String, (·.accent.getD ""), (·.column.accent), (·.column.accent),
      (·.column.accent ≠ "")⟩,
    ⟨"wip_limit", ℤ, (·.wipLimit.getD 0), (·.column.wipLimit), (·.column.wipLimit),
      (·.column.wipLimit ≠ 0)⟩,
    ⟨"is_done", Bool, (·.isDone), (·.column.isDone), (·.column.isDone),
      ("is_done" ∈ ·.updateMask)⟩]

def columnRest (k : ColumnRow ι) : ColumnRow ι :=
  { k with title := "", accent := none, wipLimit := none, isDone := false }

/-- The fields of an item of a checklist. -/
def itemFields : List (Field (ChecklistItemRow ι) UpdateChecklistItemRequest) :=
  [⟨"text", String, (·.text), (·.text), (·.text), (·.text ≠ "")⟩,
    ⟨"done", Bool, (·.done), (·.done), (·.done), fun _ => True⟩]

def itemRest (i : ChecklistItemRow ι) : ChecklistItemRow ι := { i with text := "", done := false }

end Fields

/-! ## What the updates do to a row -/

section Rows

variable {codec : IdCodec ι}

omit [DecidableEq ι] in
theorem sparseOption_getD (value : String) (old : Option String) :
    (sparseOption value old).getD "" = if value ≠ "" then value else old.getD "" := by
  unfold sparseOption
  split
  · rfl
  · rfl

/-- The milestone that `milestonePatch` returns is the one of the patch. -/
def PatchesMilestone (codec : IdCodec ι) (req : UpdateCardRequest)
    (milestone : Option (Option ι)) : Prop :=
  milestone = if req.card.milestoneId = "" then
    (if "milestone_id" ∈ req.updateMask then some none else none)
  else some (codec.parse req.card.milestoneId)

omit [DecidableEq ι] in
theorem updates_patchCard {req : UpdateCardRequest} {milestone : Option (Option ι)}
    (hm : PatchesMilestone codec req milestone) (c : CardRow ι) :
    Updates True (cardFields codec) cardRest req c (patchCard req milestone c) := by
  refine ⟨?_, rfl⟩
  simp only [cardFields, List.forall_mem_cons]
  refine ⟨Field.sets_of_ite Iff.rfl rfl, Field.sets_of_ite Iff.rfl (sparseOption_getD _ _),
    Field.sets_of_ite Iff.rfl (apply_ite priorityToI32 _ _ _),
    Field.sets_of_ite Iff.rfl (apply_ite urgencyToI32 _ _ _), Field.sets_of_ite Iff.rfl ?_,
    Field.sets_of_ite Iff.rfl rfl, Field.sets_of_ite Iff.rfl (sparseOption_getD _ _),
    Field.sets_of_ite Iff.rfl ?_, List.forall_mem_nil _⟩
  · dsimp only [patchCard]
    cases req.card.due.bind fromProtoTs with
    | none => rfl
    | some due => rfl
  dsimp only [patchCard]
  rw [hm]
  by_cases hempty : req.card.milestoneId = ""
  · by_cases hname : "milestone_id" ∈ req.updateMask
    · simp [milestonePatched, hempty, hname]
    · simp [hempty, hname]
  · simp [milestonePatched, hempty]

omit [DecidableEq ι] in
theorem updates_patchColumn {req : UpdateColumnRequest} (k : ColumnRow ι) :
    Updates True columnFields columnRest req k (patchColumn req k) := by
  refine ⟨?_, rfl⟩
  simp only [columnFields, List.forall_mem_cons]
  refine ⟨Field.sets_of_ite Iff.rfl rfl, Field.sets_of_ite Iff.rfl (sparseOption_getD _ _),
    Field.sets_of_ite Iff.rfl ?_, Field.sets_of_ite Iff.rfl rfl, List.forall_mem_nil _⟩
  dsimp only [patchColumn]
  split
  · rfl
  · rfl

omit [DecidableEq ι] in
theorem updates_item {req : UpdateChecklistItemRequest} (i : ChecklistItemRow ι) :
    Updates True itemFields itemRest req i
      { i with text := sparse req.text i.text, done := req.done } := by
  refine ⟨?_, rfl⟩
  simp only [itemFields, List.forall_mem_cons]
  exact ⟨Field.sets_of_ite Iff.rfl rfl, Field.sets_of_ite Iff.rfl (if_pos trivial).symm,
    List.forall_mem_nil _⟩

end Rows

/-! ## The handlers -/

section Handlers

variable {codec : IdCodec ι} {ctx : RequestContext} {db v : Db ι} {t : String}
  {cardId columnId boardId itemId : ι}

/-- The milestone of the patch is read and nothing is written. -/
theorem solo_milestonePatch_bind {E : Db ι → Prop} {projectId : ι} {req : UpdateCardRequest}
    {f : Option (Option ι) → Handler ι α} {Q : α → Tx (Rec ι) → Db ι → Prop}
    (h : ∀ milestone, PatchesMilestone codec req milestone → Solo (kanban ι) E (f milestone) .idle v Q) :
    Solo (kanban ι) E ((milestonePatch codec t projectId req).bind f) .idle v Q := by
  by_cases hempty : req.card.milestoneId = ""
  · rw [milestonePatch, if_pos hempty]
    exact h _ (if_pos hempty).symm
  · rw [milestonePatch, if_neg hempty, checkMilestone, if_neg hempty]
    refine solo_bind (solo_bind (solo_orError_bind fun mid hmid => solo_fetchOptional_bind
      (solo_ensure_bind fun _ => solo_pure (solo_pure (h _ ?_)))))
    rw [PatchesMilestone, if_neg hempty, hmid]

/-- The cards after `UpdateCard`, and the event that tells of it. -/
theorem solo_updateCard_story {req : UpdateCardRequest} (hdb : Keyed db)
    (ht : ctx.auth.bind AuthContext.tenantId = some t)
    (hcard : ctx.checked.bind codec.parse = some cardId) :
    Solo (kanban ι) (fun _ => True) (updateCard codec ctx req) .idle db fun _ _ v =>
      (keyCard db t req.idempotencyKey ≠ none → v.story = db.story) ∧
      (keyCard db t req.idempotencyKey = none → ∃ milestone, PatchesMilestone codec req milestone ∧
        v.cards = (db.cards.map fun c =>
          if c.id = cardId ∧ c.tenantId = t then patchCard req milestone c else c) ∧
        ∃ c ∈ db.cards, c.id = cardId ∧ c.tenantId = t ∧ ∃ e, Says c.boardId "CardUpdated"
          (cardUpdated codec cardId c.revision (c.revision + 1) milestone req) e ∧
          v.eventLog = db.eventLog ++ [e]) := by
  refine solo_orError_bind fun objectId hobject => solo_orError_bind fun cardId' hcard' =>
    solo_orError_bind fun t' ht' => solo_checkIdempotencyCard_bind ?_
  obtain rfl := Option.some.inj (ht'.symm.trans ht)
  rw [show ctx.checked = some objectId from hobject] at hcard
  obtain rfl := Option.some.inj (hcard'.symm.trans hcard)
  cases hkey : keyCard db t' req.idempotencyKey with
  | some existingId => exact solo_mute .fetchFullCard fun _ => ⟨fun _ => rfl, fun h => by cases h⟩
  | none =>
      refine solo_fetchOr_bind fun cur hcur hcur' => solo_milestonePatch_bind fun milestone hm => ?_
      refine solo_updateCardRow_bind hdb (fun _ => rfl) fun c hc hid hct v₁ hlog₁ hcards₁ => ?_
      obtain rfl : cur = c := hdb.eq_of_mem hcur hc ((of_decide_eq_true hcur').1.trans hid.symm)
      refine solo_beginTx_bind (soloTx_insertBoardEvent.bind_soloIn fun _ v₂ ⟨hcards₂, e, he, hlog₂⟩ => ?_)
      refine soloIn_commitTx_bind trivial (solo_tame_story (P := fun _ => True)
        (.bind .storeIdempotencyId fun _ => .fetchFullCard) trivial fun _ v₃ h₃ => ?_)
      refine ⟨fun h => absurd rfl h, fun _ => ⟨milestone, hm, ?_, cur, hcur, hid, hct, e, he, ?_⟩⟩
      · exact (congrArg Story.cards h₃).trans (hcards₂.trans hcards₁)
      · exact (congrArg Story.events h₃).trans (hlog₂.trans (congrArg (· ++ [e]) hlog₁))

/-- The columns after `UpdateColumn`. -/
theorem solo_updateColumn_rows {req : UpdateColumnRequest} (hdb : (db.columns.map ColumnRow.id).Nodup)
    (ht : ctx.auth.bind AuthContext.tenantId = some t)
    (hboard : ctx.checked.bind codec.parse = some boardId)
    (hcolumn : codec.parse req.columnId = some columnId) :
    Solo (kanban ι) (fun _ => True) (updateColumn codec ctx req) .idle db fun _ _ v =>
      v.columns = db.columns.map fun k =>
        if columnOnBoard t columnId boardId k then patchColumn req k else k := by
  refine solo_orError_bind fun t' ht' => solo_orError_bind fun objectId hobject =>
    solo_orError_bind fun boardId' hboard' => solo_orError_bind fun columnId' hcolumn' =>
    solo_beginTx_bind ?_
  obtain rfl := Option.some.inj (ht'.symm.trans ht)
  rw [show ctx.checked = some objectId from hobject] at hboard
  obtain rfl := Option.some.inj (hboard'.symm.trans hboard)
  obtain rfl := Option.some.inj (hcolumn'.symm.trans hcolumn)
  refine SoloTx.bind_soloIn (B := fun _ v => v.columns = db.columns.map fun k =>
    if columnOnBoard t' columnId' boardId' k then patchColumn req k else k)
    (soloTx_fetchOr fun e row he _ => ?_) fun row v₁ h₁ => ?_
  · exact stored_columns.rows_update same_columns he (fun _ => rfl) hdb
  · refine Careful.insertBoardEvent.soloTx.bind_soloIn fun _ v₂ h₂ => ?_
    exact soloIn_commitTx_bind trivial (solo_pure ((congrArg Shelves.columns h₂).trans h₁))

/-- The items after `UpdateChecklistItem`. -/
theorem solo_updateChecklistItem_rows {req : UpdateChecklistItemRequest} (hdb : ItemsKeyed db)
    (ht : ctx.auth.bind AuthContext.tenantId = some t)
    (hcard : ctx.checked.bind codec.parse = some cardId) (hitem : codec.parse req.itemId = some itemId) :
    Solo (kanban ι) (fun _ => True) (updateChecklistItem codec ctx req) .idle db fun _ _ v =>
      v.checklistItems = db.checklistItems.map fun i =>
        if i.id = itemId ∧ i.cardId = cardId ∧ i.tenantId = t
        then { i with text := sparse req.text i.text, done := req.done } else i := by
  refine solo_orError_bind fun objectId hobject => solo_orError_bind fun cardId' hcard' =>
    solo_orError_bind fun t' ht' => solo_orError_bind fun itemId' hitem' => ?_
  obtain rfl := Option.some.inj (ht'.symm.trans ht)
  rw [show ctx.checked = some objectId from hobject] at hcard
  obtain rfl := Option.some.inj (hcard'.symm.trans hcard)
  obtain rfl := Option.some.inj (hitem'.symm.trans hitem)
  refine Solo.weaken (solo_bind ((solo_touchCard (P := fun items => items =
    db.checklistItems.map fun i => if i.id = itemId' ∧ i.cardId = cardId' ∧ i.tenantId = t'
      then { i with text := sparse req.text i.text, done := req.done } else i) ?_).mono ?_))
    fun _ _ => trivial
  · refine soloTx_bind (soloTx_query fun e he => ?_)
    refine soloTx_bind (soloTx_ensure fun _ => soloTx_pure ?_)
    refine (stored_checklistItems.rows_update same_checklistItems he (fun _ => rfl) hdb).trans ?_
    exact List.map_congr_left fun i _ => by simp only [decide_eq_true_eq]
  · rintro _ tx v' ⟨rfl, hv'⟩
    exact solo_mute .fetchFullCard fun _ => hv'

end Handlers

/-! ## The law of the mask -/

section Law

variable {codec : IdCodec ι} {ctx : RequestContext} {w : World (Db ι) (Backend ι)} {t : String}
  {objectId : ι}

/-- **When the law of an update mask holds.**  An `UpdateCard`, an `UpdateColumn` or an
`UpdateChecklistItem` that runs alone and returns obeys its mask exactly if it sets the fields that
the mask names and no others, but for values that are there already.  A request of which the key was
stored before sets nothing; the mask of an item is not read, so it may be any. -/
theorem update_mask_iff (hcards : Keyed w.store)
    (hcolumns : (w.store.columns.map ColumnRow.id).Nodup) (hitems : ItemsKeyed w.store)
    (ht : ctx.auth.bind AuthContext.tenantId = some t)
    (hobject : ctx.checked.bind codec.parse = some objectId) :
    (∀ req acts th w' card,
      Machine.Exec (Thread.step (kanban ι)) (Thread.start (updateCard codec ctx req), w) acts (th, w') →
      th.prog.result = some (.ok card) → ∀ c ∈ w.store.cards, c.id = objectId → c.tenantId = t →
      ∃ c' ∈ w'.store.cards, c'.id = c.id ∧
        (Lawful (cardFields codec) cardRest req.updateMask req c c' ↔ Fitting
          (keyCard w.store t req.idempotencyKey = none) (cardFields codec) req.updateMask req c)) ∧
    (∀ req columnId acts th w' column, codec.parse req.columnId = some columnId →
      Machine.Exec (Thread.step (kanban ι)) (Thread.start (updateColumn codec ctx req), w) acts
        (th, w') → th.prog.result = some (.ok column) →
      ∀ k ∈ w.store.columns, columnOnBoard t columnId objectId k → ∃ k' ∈ w'.store.columns, k'.id = k.id ∧
        (Lawful columnFields columnRest req.updateMask req k k' ↔
          Fitting True columnFields req.updateMask req k)) ∧
    ∀ req itemId mask acts th w' card, codec.parse req.itemId = some itemId →
      Machine.Exec (Thread.step (kanban ι)) (Thread.start (updateChecklistItem codec ctx req), w) acts
        (th, w') → th.prog.result = some (.ok card) →
      ∀ i ∈ w.store.checklistItems, i.id = itemId → i.cardId = objectId → i.tenantId = t →
      ∃ i' ∈ w'.store.checklistItems, i'.id = i.id ∧
        (Lawful itemFields itemRest mask req i i' ↔ Fitting True itemFields mask req i) := by
  refine ⟨fun req acts th w' card hrun hok c hc hid hct => ?_,
    fun req columnId acts th w' column hcolumn hrun hok k hk hon => ?_,
    fun req itemId mask acts th w' card hitem hrun hok i hi hid hcard hit => ?_⟩
  · obtain ⟨hreplay, hfresh⟩ := ((solo_updateCard_story hcards ht hobject).exec hrun).2 card hok
    by_cases hkey : keyCard w.store t req.idempotencyKey = none
    · obtain ⟨milestone, hm, hrows, -⟩ := hfresh hkey
      refine ⟨patchCard req milestone c, ?_, rfl,
        (Updates.of_live hkey (updates_patchCard hm c)).lawful_iff⟩
      rw [hrows]
      exact List.mem_map.mpr ⟨c, hc, if_pos ⟨hid, hct⟩⟩
    · refine ⟨c, ?_, rfl, (Updates.refl hkey).lawful_iff⟩
      rw [show w'.store.cards = w.store.cards from congrArg Story.cards (hreplay hkey)]
      exact hc
  · have hrows := ((solo_updateColumn_rows hcolumns ht hobject hcolumn).exec hrun).2 column hok
    refine ⟨patchColumn req k, ?_, rfl, (updates_patchColumn k).lawful_iff⟩
    rw [hrows]
    exact List.mem_map.mpr ⟨k, hk, if_pos hon⟩
  · have hrows := ((solo_updateChecklistItem_rows hitems ht hobject hitem).exec hrun).2 card hok
    refine ⟨{ i with text := sparse req.text i.text, done := req.done }, ?_, rfl,
      (updates_item i).lawful_iff⟩
    rw [hrows]
    exact List.mem_map.mpr ⟨i, hi, if_pos ⟨hid, hcard, hit⟩⟩

end Law

/-- A board with a card that has a checklist. -/
def oneItem : World (Db String) (Backend String) where
  store := { twoColumns.store with
    cards := [⟨"c", "t", "p", "b", "k", "ROAD-001", "Ship", none, 0, "medium", "medium", none, none,
      false, none, none, "user:ann", 0⟩]
    checklistItems := [⟨"i", "t", "c", "Test", true, 0⟩] }
  ext := Backend.empty

/-- The title of the card is named, and the patch may have a description too. -/
def retitlesShip (description : String) : UpdateCardRequest :=
  ⟨⟨"Launch", description, 0, 0, none, false, "", ""⟩, ["title"], ""⟩

/-- The steps of an `UpdateCard` without a key. -/
def updatesShip : List (Act (Move String)) :=
  [.ok, .ok, .ok, .ok, .move (.fresh "e"), .ok, .ok, .ok] ++ fullCardReads

/-- The first column is to be done. -/
def marksDone : UpdateColumnRequest := ⟨"k", ⟨"", "", 0, true⟩, ["is_done"]⟩

/-- The item is to have another text and to stay done. -/
def rewordsTest : UpdateChecklistItemRequest := ⟨"i", "Check", true⟩

/-- Masks that name all that their patches change. -/
theorem update_mask_iff_named :
    (∃ th w' card, Machine.Exec (Thread.step (kanban String)) (Thread.start (updateCard textIds
        (annOn "c") (retitlesShip "")), oneItem) updatesShip (th, w') ∧
      th.prog.result = some (.ok card) ∧ ∃ c ∈ oneItem.store.cards, ∃ c' ∈ w'.store.cards,
        Lawful (cardFields textIds) cardRest ["title"] (retitlesShip "") c c') ∧
    (∃ th w' column, Machine.Exec (Thread.step (kanban String)) (Thread.start (updateColumn textIds
        (annOn "b") marksDone), oneItem) [.ok, .ok, .ok, .move (.fresh "e"), .ok, .ok, .ok] (th, w') ∧
      th.prog.result = some (.ok column) ∧ ∃ k ∈ oneItem.store.columns, ∃ k' ∈ w'.store.columns,
        Lawful columnFields columnRest ["is_done"] marksDone k k') ∧
    ∃ th w' card, Machine.Exec (Thread.step (kanban String)) (Thread.start (updateChecklistItem textIds
        (annOn "c") rewordsTest), oneItem) ([.ok, .ok, .ok, .ok, .ok, .move (.fresh "e"), .ok, .ok,
        .ok] ++ fullCardReads) (th, w') ∧
      th.prog.result = some (.ok card) ∧ ∃ i ∈ oneItem.store.checklistItems,
        ∃ i' ∈ w'.store.checklistItems, Lawful itemFields itemRest ["text"] rewordsTest i i' := by
  have honCard := @update_mask_iff String _ textIds (annOn "c") oneItem "t" "c" (by decide) (by decide)
    (by decide) rfl rfl
  have honBoard := @update_mask_iff String _ textIds (annOn "b") oneItem "t" "b" (by decide)
    (by decide) (by decide) rfl rfl
  refine ⟨?_, ?_, ?_⟩
  · obtain ⟨th, w', card, hrun, hok⟩ : ∃ th w' card, Machine.run (Thread.step (kanban String))
        (Thread.start (updateCard textIds (annOn "c") (retitlesShip "")), oneItem) updatesShip
          = some (th, w') ∧ th.prog.result = some (.ok card) := ⟨_, _, _, rfl, rfl⟩
    have hcall := Machine.exec_of_run hrun
    obtain ⟨c', hc', -, hlaw⟩ := honCard.1 _ _ _ _ _ hcall hok _ List.mem_cons_self rfl rfl
    refine ⟨th, w', card, hcall, hok, _, List.mem_cons_self, c', hc', hlaw.mpr ?_⟩
    simp [Fitting, Field.Fits, cardFields, retitlesShip, keyCard]
  · obtain ⟨th, w', column, hrun, hok⟩ : ∃ th w' column, Machine.run (Thread.step (kanban String))
        (Thread.start (updateColumn textIds (annOn "b") marksDone), oneItem)
          [.ok, .ok, .ok, .move (.fresh "e"), .ok, .ok, .ok]
          = some (th, w') ∧ th.prog.result = some (.ok column) := ⟨_, _, _, rfl, rfl⟩
    have hcall := Machine.exec_of_run hrun
    obtain ⟨k', hk', -, hlaw⟩ := honBoard.2.1 _ "k" _ _ _ _ rfl hcall hok _ List.mem_cons_self (by decide)
    refine ⟨th, w', column, hcall, hok, _, List.mem_cons_self, k', hk', hlaw.mpr ?_⟩
    simp [Fitting, Field.Fits, columnFields, marksDone]
  · obtain ⟨th, w', card, hrun, hok⟩ : ∃ th w' card, Machine.run (Thread.step (kanban String))
        (Thread.start (updateChecklistItem textIds (annOn "c") rewordsTest), oneItem)
          ([.ok, .ok, .ok, .ok, .ok, .move (.fresh "e"), .ok, .ok, .ok] ++ fullCardReads)
          = some (th, w') ∧ th.prog.result = some (.ok card) := ⟨_, _, _, rfl, rfl⟩
    have hcall := Machine.exec_of_run hrun
    obtain ⟨i', hi', -, hlaw⟩ := honCard.2.2 _ "i" ["text"] _ _ _ _ rfl hcall hok _ List.mem_cons_self
      rfl rfl rfl
    refine ⟨th, w', card, hcall, hok, _, List.mem_cons_self, i', hi', hlaw.mpr ?_⟩
    simp [Fitting, Field.Fits, itemFields, rewordsTest]

/-- A mask that names the title only, and a patch of which the description is taken as well. -/
theorem update_mask_not_lawful :
    ∃ th w' card, Machine.Exec (Thread.step (kanban String)) (Thread.start (updateCard textIds
        (annOn "c") (retitlesShip "Soon")), oneItem) updatesShip (th, w') ∧
      th.prog.result = some (.ok card) ∧ ∃ c ∈ oneItem.store.cards, ∀ c' ∈ w'.store.cards,
        ¬ Lawful (cardFields textIds) cardRest ["title"] (retitlesShip "Soon") c c' := by
  obtain ⟨th, w', card, hrun, hok, hrows⟩ : ∃ th w' card, Machine.run (Thread.step (kanban String))
      (Thread.start (updateCard textIds (annOn "c") (retitlesShip "Soon")), oneItem) updatesShip
        = some (th, w') ∧ th.prog.result = some (.ok card) ∧
      ∀ c' ∈ w'.store.cards, c'.description = some "Soon" := ⟨_, _, _, rfl, rfl, by decide⟩
  refine ⟨th, w', card, Machine.exec_of_run hrun, hok, _, List.mem_cons_self, fun c' hc' hlaw => ?_⟩
  have hkept : c'.description.getD "" = "" :=
    hlaw.unnamed _ (List.mem_cons_of_mem _ List.mem_cons_self) (by decide)
  rw [hrows c' hc'] at hkept
  exact absurd hkept (by decide)

end Kanban.Rpc
