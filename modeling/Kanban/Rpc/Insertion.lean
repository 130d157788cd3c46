import Kanban.Rpc.CardService
import Kanban.Rpc.OrderedRuns

/-!
# Where a new element is put

`CreateCard` and `AddChecklistItem` take a position that is counted from 1, where 0 asks for the
end.  The stored positions are counted from 0, and may have gaps.  The handlers store the position
as it comes, so the new element is after as many others as are stored below it.

## Main definitions

* `checklistShelf` — the items of a checklist, each at its position.
* `askedIndex` — the index that a request asks for.
* `Counted` — as many others are below the position as the request counts.
* `positional_insert_iff` — when the new element is at that index.
-/

namespace Kanban.Rpc

open Program Kanban.Store Kanban.Auth
open Kanban.Services (AuthContext ConnectError IdCodec)

variable {ι α β θ : Type} [DecidableEq ι]

/-- The items of the checklist of a card, each at its position. -/
def checklistShelf (items : List (ChecklistItemRow ι)) (tenantId : String) (cardId : ι) :
    List (ι × ℤ) :=
  (items.filter fun i => i.cardId = cardId ∧ i.tenantId = tenantId).map fun i => (i.id, i.position)

/-- The index that a request asks for among `n` others: the end, or the place counted from 1. -/
def askedIndex (position : ℤ) (n : ℕ) : ℕ :=
  if position = 0 then n else min (position - 1).toNat n

/-- The number of others below the position is the index that is asked for. -/
def Counted (position : ℤ) (l : List (ι × ℤ)) : Prop :=
  position = 0 ∨ Shelf.below position l = askedIndex position l.length

/-- A new element has been put among the others, at a position of its own and at the index `i` of
their order. -/
structure PutNew (i : ℕ) (x : ι) (l l' : List (ι × ℤ)) : Prop extends Shelf.Gains x l l' where
  index : (Shelf.order l').idxOf x = i

/-- The index at which the handlers put a new element. -/
def storedIndex (position : ℤ) (l : List (ι × ℤ)) : ℕ :=
  if position = 0 then l.length else Shelf.below position l

section Index

variable {position : ℤ} {l l' : List (ι × ℤ)} {x : ι}

omit [DecidableEq ι] in
theorem storedIndex_eq_askedIndex :
    storedIndex position l = askedIndex position l.length ↔ Counted position l := by
  unfold storedIndex Counted
  split
  · rename_i hzero
    exact iff_of_true (if_pos hzero).symm (.inl hzero)
  · rename_i hzero
    exact (or_iff_right hzero).symm

end Index

/-! ## Cards -/

section Cards

variable {codec : IdCodec ι} {ctx : RequestContext} {req : CreateCardRequest} {t : String} {K : ι}
  {cards cards' : List (CardRow ι)}

/-- A card that was created. -/
theorem Effects.putNew (h : Effects codec (ctx, .createCard req) cards cards')
    (ht : ctx.auth.bind AuthContext.tenantId = some t) (hK : codec.parse req.columnId = some K) :
    ∃ x, PutNew (storedIndex req.position (columnShelf cards t K)) x (columnShelf cards t K)
      (columnShelf cards' t K) := by
  cases h with
  | delete hq => cases hq
  | @put t' shifts row htenant hcall hputs =>
      cases hcall with
      | move _ hq => cases hq
      | transfer _ hq => cases hq
      | create _ hq hcolumn hnew hpos =>
          cases hq
          obtain rfl := Option.some.inj (htenant.symm.trans ht)
          obtain rfl := Option.some.inj (hcolumn.symm.trans hK)
          obtain ⟨hrt, -, hperm⟩ := hputs
          have hshelf : ∀ {l : List (CardRow ι)}, (∀ c ∈ l, c.id ≠ row.id) →
              row.id ∉ (columnShelf l t' row.columnId).map Prod.fst := by
            intro l hl hmem
            obtain ⟨s, hs, heq⟩ := List.mem_map.mp hmem
            obtain ⟨c, hc, -, -, rfl⟩ := mem_columnShelf.mp hs
            exact hl c hc heq
          have hothers : otherCards (shiftAll t' (insertShifts row.columnId req.position) cards)
              row.id = shiftAll t' (insertShifts row.columnId req.position) cards :=
            List.filter_eq_self.mpr fun c hc =>
              decide_eq_true (forall_ne_insertShifts.mpr hnew c hc)
          rw [hothers] at hperm
          have hcol := columnShelf_perm (t := t') (K := row.columnId) hperm
          rw [columnShelf_cons_self rfl hrt, hpos] at hcol
          refine ⟨row.id, ?_⟩
          unfold storedIndex
          by_cases hzero : req.position = 0
          · rw [insertedPosition, if_pos hzero, insertShifts, if_pos hzero] at hcol
            rw [if_pos hzero]
            obtain ⟨hgains, hindex⟩ := Shelf.gains_top hcol (hshelf hnew)
            exact ⟨hgains, hindex⟩
          · have hself : columnShelf (shiftAll t' [⟨row.columnId, fun p => req.position ≤ p, 1⟩]
                cards) t' row.columnId = Shelf.shift (req.position ≤ ·) 1
                  (columnShelf cards t' row.columnId) := columnShelf_shift_self
            rw [insertedPosition, if_neg hzero, insertShifts, if_neg hzero, hself] at hcol
            rw [if_neg hzero]
            obtain ⟨hgains, hindex⟩ := Shelf.gains_at hcol (hshelf hnew)
            exact ⟨hgains, hindex⟩

end Cards

/-! ## Checklist items -/

/-- The items of all checklists have distinct ids. -/
def ItemsKeyed (db : Db ι) : Prop := (db.checklistItems.map ChecklistItemRow.id).Nodup

instance {db : Db ι} : Decidable (ItemsKeyed db) := inferInstanceAs (Decidable (List.Nodup _))

section Checklist

variable {codec : IdCodec ι} {ctx : RequestContext} {req : AddChecklistItemRequest} {t msg : String}
  {cardId x : ι} {v db : Db ι} {items : List (ChecklistItemRow ι)}

theorem ItemsKeyed.applyAll (h : ItemsKeyed db) (ws : List (Write (Rec ι))) :
    ItemsKeyed ((kanban ι).applyAll db ws) :=
  stored_checklistItems.nodup_applyAll same_checklistItems h

theorem mem_checklistShelf {a : ι × ℤ} : a ∈ checklistShelf items t cardId ↔
    ∃ i ∈ items, i.cardId = cardId ∧ i.tenantId = t ∧ (i.id, i.position) = a := by
  simp [checklistShelf, and_assoc]

/-- An item that is inserted after the others. -/
theorem rows_insertItem {row : ChecklistItemRow ι} {e : Effect (Rec ι) Unit}
    (he : Db.checklistItemsT.insert row v = some e) (hcard : row.cardId = cardId)
    (ht : row.tenantId = t) :
    (checklistShelf ((kanban ι).applyAll v e.writes).checklistItems t cardId).Perm
        ((row.id, row.position) :: checklistShelf v.checklistItems t cardId) ∧
      row.id ∉ (checklistShelf v.checklistItems t cardId).map Prod.fst := by
  obtain ⟨hrows, hnew⟩ := stored_checklistItems.rows_insert he
  refine ⟨?_, fun hmem => ?_⟩
  · rw [show ((kanban ι).applyAll v e.writes).checklistItems = v.checklistItems ++ [row] from hrows]
    refine List.Perm.trans (List.Perm.of_eq ?_) (List.perm_append_singleton _ _)
    simp [checklistShelf, hcard, ht]
  · obtain ⟨s, hs, heq⟩ := List.mem_map.mp hmem
    obtain ⟨i, hi, -, -, rfl⟩ := mem_checklistShelf.mp hs
    have := hnew i hi
    simp [← heq] at this

/-- An item is put on the checklist. -/
def PutsItem (position : ℤ) (tenantId : String) (cardId : ι)
    (items items' : List (ChecklistItemRow ι)) : Prop :=
  ∃ x, PutNew (storedIndex position (checklistShelf items tenantId cardId)) x
    (checklistShelf items tenantId cardId) (checklistShelf items' tenantId cardId)

theorem soloTx_appendChecklistItem {text : String} :
    SoloTx (kanban ι) (query msg (appendChecklistItem x t cardId text)) v fun _ v' =>
      PutsItem 0 t cardId v.checklistItems v'.checklistItems := by
  refine soloTx_query fun e he => ⟨x, ?_⟩
  obtain ⟨n, hn, he⟩ := Option.bind_eq_some_iff.mp he
  obtain ⟨hperm, hnew⟩ := rows_insertItem (t := t) he rfl rfl
  have htop : n = Shelf.top (checklistShelf v.checklistItems t cardId) := by
    refine (int4_eq_some hn).trans ?_
    unfold Shelf.top checklistShelf
    rw [List.map_map]
    rfl
  dsimp only at hperm
  rw [htop] at hperm
  obtain ⟨hgains, hindex⟩ := Shelf.gains_top hperm hnew
  exact ⟨hgains, hindex⟩

theorem soloTx_shiftChecklistItems {p : ℤ} (hv : ItemsKeyed v) :
    SoloTx (kanban ι) (query msg (Db.checklistItemsT.updateChecked
        (fun i => i.cardId = cardId ∧ i.tenantId = t ∧ p ≤ i.position)
        fun i => (int4 (i.position + 1)).map fun n => { i with position := n })) v fun _ v' =>
      checklistShelf v'.checklistItems t cardId =
        Shelf.shift (p ≤ ·) 1 (checklistShelf v.checklistItems t cardId) := by
  refine soloTx_query fun e he => ?_
  obtain ⟨hrows, -⟩ := stored_checklistItems.rows_updateChecked same_checklistItems
    (g := fun i => { i with position := i.position + 1 }) he
    (fun i i' hi => by
      obtain ⟨n, hn, rfl⟩ := Option.map_eq_some_iff.mp hi
      rw [int4_eq_some hn]) (fun _ => rfl) hv
  have hitems : ((kanban ι).applyAll v e.writes).checklistItems = v.checklistItems.map fun i =>
      if decide (i.cardId = cardId ∧ i.tenantId = t) = true ∧ decide (p ≤ i.position) = true then
        { i with position := i.position + 1 } else i :=
    hrows.trans (List.map_congr_left fun i _ => by simp only [decide_eq_true_eq, and_assoc])
  rw [hitems]
  exact Shelf.shift_rows (q := fun x => p ≤ x) (r := fun i => i.cardId = cardId ∧ i.tenantId = t)
    (f := fun i => (i.id, i.position)) (g := fun i => { i with position := i.position + 1 })
    (fun _ => rfl) (fun _ => rfl) v.checklistItems

theorem soloTx_insertItemAt {row : ChecklistItemRow ι} {items : List (ChecklistItemRow ι)}
    (hitems : checklistShelf v.checklistItems t cardId =
      Shelf.shift (row.position ≤ ·) 1 (checklistShelf items t cardId))
    (hpos : row.position ≠ 0) (hcard : row.cardId = cardId) (ht : row.tenantId = t) :
    SoloTx (kanban ι) (query msg (Db.checklistItemsT.insert row)) v fun _ v' =>
      PutsItem row.position t cardId items v'.checklistItems := by
  refine soloTx_query fun e he => ⟨row.id, ?_⟩
  obtain ⟨hperm, hnew⟩ := rows_insertItem he hcard ht
  rw [hitems] at hperm hnew
  rw [Shelf.map_fst_shift] at hnew
  obtain ⟨hgains, hindex⟩ := Shelf.gains_at hperm hnew
  exact ⟨hgains, hindex.trans (if_neg hpos).symm⟩

/-- The transaction in which something on a card is changed, but for the card. -/
theorem solo_touchCard {P : List (ChecklistItemRow ι) → Prop} {more : Payload}
    {body : Handler ι (α × String × Atom)}
    (hbody : SoloTx (kanban ι) body v fun _ v' => P v'.checklistItems) :
    Solo (kanban ι) (fun v => P v.shelves.checklistItems) (touchCard codec t cardId more body) .idle v
      fun _ tx v' => tx = .idle ∧ P v'.shelves.checklistItems := by
  refine solo_fetchOr_bind fun cur _ _ => solo_beginTx_bind (hbody.bind_soloIn fun a v₁ h₁ => ?_)
  obtain ⟨a, patch⟩ := a
  have hbump : SoloTx (kanban ι) (bumpRevision "failed to bump revision" t cardId) v₁ fun _ v' =>
      v'.checklistItems = v₁.checklistItems := by
    refine soloTx_bind (soloTx_fetchOne fun e row he _ => soloTx_pure ?_)
    refine stored_checklistItems.rows_applyAll fun a ha r heq => ?_
    obtain ⟨c, rfl | rfl⟩ := Table.within_update v₁ e he a ha <;> cases heq
  refine hbump.bind_soloIn fun newRevision v₂ h₂ => ?_
  refine Careful.insertBoardEvent.soloTx.bind_soloIn fun _ v₃ h₃ => ?_
  have hdone : P v₃.shelves.checklistItems := by
    rw [h₃]
    exact (congrArg P h₂).mpr h₁
  exact soloIn_commitTx_bind hdone (solo_pure ⟨rfl, hdone⟩)

/-- An item that is added to a checklist. -/
theorem solo_addChecklistItem (hdb : ItemsKeyed db) (ht : ctx.auth.bind AuthContext.tenantId = some t)
    (hcard : ctx.checked.bind codec.parse = some cardId) :
    Solo (kanban ι) (fun v => PutsItem req.position t cardId db.checklistItems
        v.shelves.checklistItems) (addChecklistItem codec ctx req) .idle db
      fun _ _ v => PutsItem req.position t cardId db.checklistItems v.shelves.checklistItems := by
  refine solo_orError_bind fun objectId hobject => solo_orError_bind fun cardId' hcard' =>
    solo_orError_bind fun t' ht' => solo_ensure_bind fun _ => ?_
  obtain rfl := Option.some.inj (ht'.symm.trans ht)
  rw [show ctx.checked = some objectId from hobject] at hcard
  obtain rfl := Option.some.inj (hcard'.symm.trans hcard)
  refine solo_bind ((solo_touchCard (P := PutsItem req.position t' cardId' db.checklistItems)
    (soloTx_bind (Careful.newId.soloTx.mono fun itemId v₁ h₁ => ?_))).mono ?_)
  · have hitems : v₁.checklistItems = db.checklistItems := congrArg Shelves.checklistItems h₁
    have hv₁ : ItemsKeyed v₁ := by
      unfold ItemsKeyed
      rw [hitems]
      exact hdb
    rw [← hitems]
    split
    · rename_i hzero
      rw [hzero]
      exact soloTx_bind (soloTx_appendChecklistItem.mono fun _ v₂ h₂ => soloTx_pure h₂)
    · rename_i hpos
      refine soloTx_bind ((soloTx_shiftChecklistItems hv₁).mono fun _ v₂ h₂ => ?_)
      exact soloTx_bind ((soloTx_insertItemAt h₂ hpos rfl rfl).mono fun _ v₃ h₃ => soloTx_pure h₃)
  · rintro _ tx v' ⟨rfl, hv'⟩
    exact solo_mute .fetchFullCard fun _ => hv'

end Checklist

/-! ## Serial runs -/

section Runs

variable {codec : IdCodec ι} {w w' : World (Db ι) (Backend ι)} {handler : θ → Handler ι α}
  {calls : List (θ × List (Act (Move ι)))}

/-- **Where a new element is put.**  After any calls that were executed one after the other, a card
that is created and an item that is added to a checklist is new, at a position of its own, and at
the index that the request asks for exactly if the position is counted. -/
theorem positional_insert_iff (h : Keyed w.store) (hitems : ItemsKeyed w.store)
    (hrun : Machine.Exec (serialStep (kanban ι) handler) w calls w') :
    (∀ ctx req tenantId columnId acts t w'' card,
      ctx.auth.bind AuthContext.tenantId = some tenantId → codec.parse req.columnId = some columnId →
      keyCard w'.store tenantId req.idempotencyKey = none →
      Machine.Exec (Thread.step (kanban ι)) (Thread.start (createCard codec ctx req), w') acts
        (t, w'') → t.prog.result = some (.ok card) →
      ∃ x i, PutNew i x (columnShelf w'.store.cards tenantId columnId)
          (columnShelf w''.store.cards tenantId columnId) ∧
        (i = askedIndex req.position (columnShelf w'.store.cards tenantId columnId).length ↔
          Counted req.position (columnShelf w'.store.cards tenantId columnId))) ∧
    ∀ ctx req tenantId cardId acts t w'' card,
      ctx.auth.bind AuthContext.tenantId = some tenantId → ctx.checked.bind codec.parse = some cardId →
      Machine.Exec (Thread.step (kanban ι)) (Thread.start (addChecklistItem codec ctx req), w') acts
        (t, w'') → t.prog.result = some (.ok card) →
      ∃ x i, PutNew i x (checklistShelf w'.store.checklistItems tenantId cardId)
          (checklistShelf w''.store.checklistItems tenantId cardId) ∧
        (i = askedIndex req.position
            (checklistShelf w'.store.checklistItems tenantId cardId).length ↔
          Counted req.position (checklistShelf w'.store.checklistItems tenantId cardId)) := by
  have hkeyed : Keyed w'.store := serial_of_writes (fun _ ws h => Keyed.applyAll h ws) hrun h
  have hitems' : ItemsKeyed w'.store :=
    serial_of_writes (fun _ ws h => ItemsKeyed.applyAll h ws) hrun hitems
  refine ⟨fun ctx req t K acts th w'' card ht hK hkey hcall hok => ?_,
    fun ctx req t cardId acts th w'' card ht hobject hcall hok => ?_⟩
  · rcases ((solo_createCard hkeyed).exec hcall).2 card hok with ⟨hreplayed, -⟩ | ⟨-, hdone⟩
    · exact absurd hreplayed (not_replayed ht hkey)
    · obtain ⟨x, hput⟩ := Effects.putNew hdone ht hK
      exact ⟨x, _, hput, storedIndex_eq_askedIndex⟩
  · obtain ⟨x, hput⟩ := ((solo_addChecklistItem hitems' ht hobject).exec hcall).2 card hok
    exact ⟨x, _, hput, storedIndex_eq_askedIndex⟩

end Runs

/-- A call of the service on cards. -/
def serviceCall (q : RequestContext × CardCall) : Handler String CardReply :=
  cardHandler textIds 1 q.1 q.2

/-- A `CreateCard` and the steps that it takes. -/
def newCard (position : ℤ) (cardId event : String) :
    CreateCardRequest × List (Act (Move String)) :=
  (⟨"k", "Ship", "", 0, none, "", position, "", 0⟩, (createsCard "k" position cardId event).2)

/-- An `AddChecklistItem` and the steps that it takes. -/
def newItem (position : ℤ) (itemId event : String) :
    AddChecklistItemRequest × List (Act (Move String)) :=
  (⟨"Test", position, ""⟩, [.ok, .ok, .move (.fresh itemId)] ++ (if position = 0 then [.ok] else
    [.ok, .ok]) ++ [.ok, .ok, .move (.fresh event), .ok, .ok, .ok] ++ fullCardReads)

/-- A card with one item on its checklist is created. -/
def oneOfEach : List ((RequestContext × CardCall) × List (Act (Move String))) :=
  [((annOn "b", .createCard (newCard 0 "c" "e").1), (newCard 0 "c" "e").2),
    ((annOn "c", .addChecklistItem (newItem 0 "i" "f").1), (newItem 0 "i" "f").2)]

/-- A second card and a second item are appended. -/
theorem positional_insert_iff_appended :
    ∃ w' t w₁ t' w₂ x y, Machine.Exec (serialStep (kanban String) serviceCall) twoColumns oneOfEach
        w' ∧
      Machine.Exec (Thread.step (kanban String)) (Thread.start (createCard textIds (annOn "b")
        (newCard 0 "d" "g").1), w') (newCard 0 "d" "g").2 (t, w₁) ∧
      Machine.Exec (Thread.step (kanban String)) (Thread.start (addChecklistItem textIds (annOn "c")
        (newItem 0 "j" "h").1), w') (newItem 0 "j" "h").2 (t', w₂) ∧
      PutNew 1 x (columnShelf w'.store.cards "t" "k") (columnShelf w₁.store.cards "t" "k") ∧
      PutNew 1 y (checklistShelf w'.store.checklistItems "t" "c")
        (checklistShelf w₂.store.checklistItems "t" "c") := by
  obtain ⟨w', t, w₁, t', w₂, card, card', hw', ht, ht', hok, hok', hkey, hn, hm⟩ :
      ∃ w' t w₁ t' w₂ card card', Machine.run (serialStep (kanban String) serviceCall) twoColumns
        oneOfEach = some w' ∧
      Machine.run (Thread.step (kanban String)) (Thread.start (createCard textIds (annOn "b")
        (newCard 0 "d" "g").1), w') (newCard 0 "d" "g").2 = some (t, w₁) ∧
      Machine.run (Thread.step (kanban String)) (Thread.start (addChecklistItem textIds (annOn "c")
        (newItem 0 "j" "h").1), w') (newItem 0 "j" "h").2 = some (t', w₂) ∧
      t.prog.result = some (.ok card) ∧ t'.prog.result = some (.ok card') ∧
      keyCard w'.store "t" "" = none ∧ (columnShelf w'.store.cards "t" "k").length = 1 ∧
      (checklistShelf w'.store.checklistItems "t" "c").length = 1 :=
    ⟨_, _, _, _, _, _, _, rfl, rfl, rfl, rfl, rfl, rfl, by decide, by decide⟩
  have hrun := Machine.exec_of_run hw'
  have hcall := Machine.exec_of_run ht
  have hcall' := Machine.exec_of_run ht'
  have hall := @positional_insert_iff String _ _ _ textIds _ _ _ _ (by decide) (by decide) hrun
  obtain ⟨x, i, hx, hi⟩ := hall.1 _ _ "t" "k" _ _ _ _ rfl rfl hkey hcall hok
  obtain ⟨y, j, hy, hj⟩ := hall.2 _ _ "t" "c" _ _ _ _ rfl rfl hcall' hok'
  obtain rfl : i = 1 := (hi.mpr (.inl rfl)).trans hn
  obtain rfl : j = 1 := (hj.mpr (.inl rfl)).trans hm
  exact ⟨w', t, w₁, t', w₂, x, y, hrun, hcall, hcall', hx, hy⟩

/-- A second card and a second item that are to be the first are the last. -/
theorem first_place_is_second :
    ∃ w' t w₁ t' w₂ card card',
      Machine.Exec (serialStep (kanban String) serviceCall) twoColumns oneOfEach w' ∧
      Machine.Exec (Thread.step (kanban String)) (Thread.start (createCard textIds (annOn "b")
        (newCard 1 "d" "g").1), w') (newCard 1 "d" "g").2 (t, w₁) ∧
      Machine.Exec (Thread.step (kanban String)) (Thread.start (addChecklistItem textIds (annOn "c")
        (newItem 1 "j" "h").1), w') (newItem 1 "j" "h").2 (t', w₂) ∧
      t.prog.result = some (.ok card) ∧ t'.prog.result = some (.ok card') ∧
      askedIndex 1 (columnShelf w'.store.cards "t" "k").length = 0 ∧
      Shelf.order (columnShelf w₁.store.cards "t" "k") = ["c", "d"] ∧
      askedIndex 1 (checklistShelf w'.store.checklistItems "t" "c").length = 0 ∧
      Shelf.order (checklistShelf w₂.store.checklistItems "t" "c") = ["i", "j"] := by
  obtain ⟨w', t, w₁, t', w₂, card, card', hw', ht, ht', hrest⟩ :
      ∃ w' t w₁ t' w₂ card card', Machine.run (serialStep (kanban String) serviceCall) twoColumns
        oneOfEach = some w' ∧
      Machine.run (Thread.step (kanban String)) (Thread.start (createCard textIds (annOn "b")
        (newCard 1 "d" "g").1), w') (newCard 1 "d" "g").2 = some (t, w₁) ∧
      Machine.run (Thread.step (kanban String)) (Thread.start (addChecklistItem textIds (annOn "c")
        (newItem 1 "j" "h").1), w') (newItem 1 "j" "h").2 = some (t', w₂) ∧
      t.prog.result = some (.ok card) ∧ t'.prog.result = some (.ok card') ∧
      askedIndex 1 (columnShelf w'.store.cards "t" "k").length = 0 ∧
      Shelf.order (columnShelf w₁.store.cards "t" "k") = ["c", "d"] ∧
      askedIndex 1 (checklistShelf w'.store.checklistItems "t" "c").length = 0 ∧
      Shelf.order (checklistShelf w₂.store.checklistItems "t" "c") = ["i", "j"] :=
    ⟨_, _, _, _, _, _, _, rfl, rfl, rfl, rfl, rfl, by decide, by decide, by decide, by decide⟩
  exact ⟨w', t, w₁, t', w₂, card, card', Machine.exec_of_run hw', Machine.exec_of_run ht,
    Machine.exec_of_run ht', hrest⟩

end Kanban.Rpc
