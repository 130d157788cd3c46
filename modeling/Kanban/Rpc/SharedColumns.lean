import Kanban.Lib.Holding
import Kanban.Rpc.OrderedRuns

/-!
# Concurrent calls on the same columns

A call that creates or moves a card reads the positions of a column, shifts the cards of the column
and puts its card where the shift has made room.  Nothing locks the column in between.  The cards of
a column keep their distinct positions as long as no other call commits to the column while a call
holds it, from what it has read of the column to its commit.

## Main definitions

* `SharingCall`, `sharingHandler` — the calls.
* `columnHolding` — the columns that a call holds, and those that a commit touches.
* `Tidy` — what all of the calls keep.
-/

namespace Kanban.Rpc

open Program Kanban.Store Kanban.Auth
open Kanban.Services (AuthContext ConnectError IdCodec)

variable {ι α β : Type} [DecidableEq ι]

/-- A call that creates or moves a card. -/
inductive SharingCall
  | createCard (req : CreateCardRequest)
  | moveCard (req : MoveCardRequest)
  | transferCard (req : TransferCardRequest)
  deriving DecidableEq, Repr

/-- The handler of a call; it returns the card that was created or moved. -/
def sharingHandler (codec : IdCodec ι) (pages : ℕ) (q : RequestContext × SharingCall) :
    Handler ι Card :=
  match q.2 with
  | .createCard req => createCard codec q.1 req
  | .moveCard req => moveCard codec pages q.1 req
  | .transferCard req => (transferCard codec pages q.1 req).bind fun res => .pure res.card

/-! ## The cards of some columns -/

/-- The same cards are in the columns `D`. -/
def SameCards (D : ι → Prop) (l l' : List (CardRow ι)) : Prop :=
  ∀ c, D c.columnId → (c ∈ l ↔ c ∈ l')

section SameCards

variable {D : ι → Prop} {l l' l'' : List (CardRow ι)} {s : Shift ι} {t : String} {K x : ι}
  {row : CardRow ι} {db db' : Db ι}

omit [DecidableEq ι] in
theorem SameCards.refl : SameCards D l l := fun _ _ => Iff.rfl

omit [DecidableEq ι] in
theorem SameCards.symm (h : SameCards D l l') : SameCards D l' l := fun c hc => (h c hc).symm

omit [DecidableEq ι] in
theorem SameCards.trans (h : SameCards D l l') (h' : SameCards D l' l'') : SameCards D l l'' :=
  fun c hc => (h c hc).trans (h' c hc)

/-- The same write does the same to them. -/
theorem SameCards.apply (h : SameCards D db.cards db'.cards) (a : Write (Rec ι)) :
    SameCards D (db.apply a).cards (db'.apply a).cards := by
  have hput : ∀ r : CardRow ι, SameCards D (Table.put Db.cardsT.same r db.cards)
      (Table.put Db.cardsT.same r db'.cards) := fun r c hc => by
    rw [Table.mem_put_iff, Table.mem_put_iff, h c hc]
  have hdel : ∀ r : CardRow ι, SameCards D (Table.del Db.cardsT.same r db.cards)
      (Table.del Db.cardsT.same r db'.cards) := fun r c hc => by
    rw [Table.mem_del, Table.mem_del, h c hc]
  cases a with
  | put r =>
      cases r with
      | card c => exact hput c
      | _ => exact h
  | del r =>
      cases r with
      | card c => exact hdel c
      | _ => exact h

theorem SameCards.applyAll (h : SameCards D db.cards db'.cards) (ws : List (Write (Rec ι))) :
    SameCards D ((kanban ι).applyAll db ws).cards ((kanban ι).applyAll db' ws).cards := by
  induction ws generalizing db db' with
  | nil => exact h
  | cons a ws ih => exact ih (h.apply a)

/-- The same shift does the same to them. -/
theorem SameCards.shift (h : SameCards D l l') :
    SameCards D (s.apply t l) (s.apply t l') := by
  have hone : ∀ {l l' : List (CardRow ι)}, SameCards D l l' → ∀ c, D c.columnId →
      c ∈ s.apply t l → c ∈ s.apply t l' := by
    intro l l' h c hc hmem
    obtain ⟨c', hc', rfl⟩ := List.mem_map.mp hmem
    refine List.mem_map.mpr ⟨c', (h c' ?_).mp hc', rfl⟩
    split at hc <;> exact hc
  exact fun c hc => ⟨hone h c hc, hone h.symm c hc⟩

omit [DecidableEq ι] in
theorem SameCards.fits (h : SameCards D l l') (hs : D s.columnId) (hfits : s.Fits t l) :
    s.Fits t l' := fun c hc hin => hfits c ((h c (hin.1.symm ▸ hs)).mpr hc) hin

/-- A card that is put among the others. -/
theorem SameCards.put (h : SameCards D l l') :
    SameCards D (row :: otherCards l x) (row :: otherCards l' x) := by
  intro c hc
  simp only [otherCards, List.mem_cons, List.mem_filter, h c hc]

/-- Cards with keys are apart in a column if they are all among cards that are apart. -/
theorem apart_of_subset (hkeys : (l.map CardRow.id).Nodup) (hapart : CardsApart l')
    (h : ∀ c ∈ l, c.columnId = K → c ∈ l') : Shelf.Apart (columnShelf l t K) := by
  unfold Shelf.Apart columnShelf
  rw [List.map_map]
  refine List.Nodup.map_on (fun c hc c' hc' heq => ?_) ((List.Nodup.of_map _ hkeys).filter _)
  obtain ⟨hmem, hin⟩ := List.mem_filter.mp hc
  obtain ⟨hmem', hin'⟩ := List.mem_filter.mp hc'
  obtain ⟨rfl, rfl⟩ : c.columnId = K ∧ c.tenantId = t := by simpa using hin
  obtain ⟨hK', ht'⟩ : c'.columnId = c.columnId ∧ c'.tenantId = c.tenantId := by simpa using hin'
  have hs := (hapart c.tenantId c.columnId).eq_of_snd
    (mem_columnShelf.mpr ⟨c, h c hmem rfl, rfl, rfl, rfl⟩)
    (mem_columnShelf.mpr ⟨c', h c' hmem' hK', hK', ht', rfl⟩) heq
  exact List.inj_on_of_nodup_map hkeys hmem hmem' (Prod.mk.inj hs).1

end SameCards

/-! ## What the calls keep -/

/-- The cards have keys, are in columns of their tenant, and no two share a position. -/
structure Tidy (db : Db ι) : Prop where
  keyed : Keyed db
  columnKeys : (db.columns.map ColumnRow.id).Nodup
  housed : ∀ c ∈ db.cards, ∃ k ∈ db.columns, k.id = c.columnId ∧ k.tenantId = c.tenantId
  apart : CardsApart db.cards

/-- The columns are the same, and no card is gone. -/
structure Grown (db db' : Db ι) : Prop where
  columns : db'.columns = db.columns
  cards : ∀ c ∈ db.cards, ∃ c' ∈ db'.cards, c'.id = c.id

/-- Pending writes: they put cards of the tenant in the columns `D`, and change no column. -/
def PutsIn (t : String) (D : ι → Prop) (ws : List (Write (Rec ι))) : Prop :=
  ∀ a ∈ ws, (∀ c, a.record = .card c → a = .put (.card c) ∧ D c.columnId ∧ c.tenantId = t) ∧
    ∀ k, a.record ≠ .column k

section Tidy

variable {D : ι → Prop} {t : String} {db db' db'' : Db ι} {ws ws' : List (Write (Rec ι))}
  {l : List (CardRow ι)}

omit [DecidableEq ι] in
theorem Grown.refl : Grown db db := ⟨rfl, fun c hc => ⟨c, hc, rfl⟩⟩

omit [DecidableEq ι] in
theorem Grown.trans (h : Grown db db') (h' : Grown db' db'') : Grown db db'' := by
  refine ⟨h'.columns.trans h.columns, fun c hc => ?_⟩
  obtain ⟨c', hc', hid⟩ := h.cards c hc
  obtain ⟨c'', hc'', hid'⟩ := h'.cards c' hc'
  exact ⟨c'', hc'', hid'.trans hid⟩

omit [DecidableEq ι] in
theorem PutsIn.append (h : PutsIn t D ws) (h' : PutsIn t D ws') : PutsIn t D (ws ++ ws') := by
  intro a ha
  rcases List.mem_append.mp ha with ha | ha
  · exact h a ha
  · exact h' a ha

omit [DecidableEq ι] in
theorem PutsIn.of_beside (h : ∀ a ∈ ws, Beside a) : PutsIn t D ws := by
  refine fun a ha => ⟨fun c hc => ?_, fun k hk => ?_⟩
  · have hb := h a ha
    unfold Beside at hb
    rw [hc] at hb
    exact hb.elim
  · have hb := h a ha
    unfold Beside at hb
    rw [hk] at hb
    exact hb

/-- A commit of such writes takes no card away. -/
theorem PutsIn.grown (h : PutsIn t D ws) : Grown db ((kanban ι).applyAll db ws) := by
  refine ⟨stored_columns.rows_applyAll fun a ha => (h a ha).2, fun c hc => ?_⟩
  refine stored_cards.exists_mem_applyAll (p := fun c' => c'.id = c.id) ⟨c, hc, rfl⟩
    (fun c' _ r hsame hr => (of_decide_eq_true hsame).trans hr) fun c' hc' _ _ => ?_
  cases ((h _ hc').1 c' rfl).1

/-- **A commit keeps the store tidy** if the cards of its columns are apart after it. -/
theorem Tidy.commit (h : Tidy db) (hws : PutsIn t D ws)
    (hD : ∀ K, D K → ∃ k ∈ db.columns, k.id = K ∧ k.tenantId = t)
    (hview : SameCards D ((kanban ι).applyAll db ws).cards l) (hl : CardsApart l) :
    Tidy ((kanban ι).applyAll db ws) := by
  have hcols : ((kanban ι).applyAll db ws).columns = db.columns := hws.grown.columns
  -- a card that the commit has not put was there before
  have hmem : ∀ c ∈ ((kanban ι).applyAll db ws).cards,
      D c.columnId ∧ c.tenantId = t ∨ c ∈ db.cards := by
    intro c hc
    rcases stored_cards.mem_applyAll hc with hput | hold
    · exact .inl ((hws _ hput).1 c rfl).2
    · exact .inr hold.1
  refine ⟨h.keyed.applyAll ws, hcols ▸ h.columnKeys, fun c hc => ?_, fun t' K => ?_⟩
  · rw [hcols]
    rcases hmem c hc with ⟨hK, ht⟩ | hold
    · obtain ⟨k, hk, hid, htenant⟩ := hD _ hK
      exact ⟨k, hk, hid, htenant.trans ht.symm⟩
    · exact h.housed c hold
  · by_cases hK : D K
    · exact apart_of_subset (h.keyed.applyAll ws) hl fun c hc hcK => (hview c (hcK ▸ hK)).mp hc
    · have hsub : ∀ c ∈ ((kanban ι).applyAll db ws).cards, c.columnId = K → c ∈ db.cards := by
        intro c hc hcK
        rcases hmem c hc with ⟨hD, -⟩ | hold
        · exact absurd (hcK ▸ hD) hK
        · exact hold
      exact apart_of_subset (h.keyed.applyAll ws) h.apart hsub

end Tidy

/-! ## Columns that are held -/

/-- The call has taken the reference of a card. -/
def Allocated (tr : Trace (Rec ι) (Call ι) (Reply ι)) : Bool :=
  tr.seen.any fun
    | .project _ => true
    | _ => false

/-- The card of a record. -/
def cardOf : Rec ι → Option (CardRow ι)
  | .card c => some c
  | _ => none

/-- The trace commits nothing. -/
def Uncommitted (tr : Trace (Rec ι) (Call ι) (Reply ι)) : Bool :=
  tr.all fun
    | .committed ws => ws.isEmpty
    | _ => true

/-- The columns that a call holds: from its allocation of a reference on the column of the card that
it creates or transfers, and from its first look at the card on those between which it moves it;
all of them up to its first commit. -/
def heldColumns (codec : IdCodec ι) (q : RequestContext × SharingCall)
    (tr : Trace (Rec ι) (Call ι) (Reply ι)) : List ι :=
  if Uncommitted tr then
    match q.2 with
    | .createCard req => if Allocated tr then (codec.parse req.columnId).toList else []
    | .transferCard req => if Allocated tr then (codec.parse req.targetColumnId).toList else []
    | .moveCard req => (Trace.seenBy cardOf tr).flatMap fun c =>
        c.columnId :: (codec.parse req.toColumnId).toList
  else []

/-- The columns that writes touch: those in which they put a card, and those that they take it
from. -/
def touchedColumns (db : Db ι) (ws : List (Write (Rec ι))) : List ι :=
  ws.flatMap fun a => (cardOf a.record).toList.flatMap fun c =>
    c.columnId :: (db.cards.filter fun c' => c'.id = c.id).map CardRow.columnId

section Held

variable {codec : IdCodec ι} {q : RequestContext × SharingCall} {K : ι}
  {tr : Trace (Rec ι) (Call ι) (Reply ι)} {db : Db ι} {ws : List (Write (Rec ι))}

omit [DecidableEq ι] in
/-- A trace that goes on without a commit holds what it held. -/
theorem heldColumns_cons {e : Event (Rec ι) (Call ι) (Reply ι)}
    (he : ∀ ws, e = .committed ws → ws = []) :
    heldColumns codec q tr ⊆ heldColumns codec q (e :: tr) := by
  have hseen : ∀ r, r ∈ tr.seen → r ∈ Trace.seen (e :: tr) := fun r hr =>
    Trace.mem_seen.mpr (Trace.mem_seen.mp hr).cons
  have halloc : Allocated tr = true → Allocated (e :: tr) = true := by
    unfold Allocated
    rw [List.any_eq_true, List.any_eq_true]
    rintro ⟨r, hr, hp⟩
    exact ⟨r, hseen r hr, hp⟩
  have hopen : Uncommitted tr = true → Uncommitted (e :: tr) = true := by
    unfold Uncommitted
    intro h
    rw [List.all_cons, h, Bool.and_true]
    cases e with
    | committed ws => rw [he ws rfl]; rfl
    | _ => rfl
  intro K hK
  unfold heldColumns at hK ⊢
  split at hK
  · rw [if_pos (hopen ‹_›)]
    obtain ⟨ctx, call⟩ := q
    cases call with
    | createCard req =>
        dsimp only at hK ⊢
        split at hK
        · rwa [if_pos (halloc ‹_›)]
        · cases hK
    | transferCard req =>
        dsimp only at hK ⊢
        split at hK
        · rwa [if_pos (halloc ‹_›)]
        · cases hK
    | moveCard req =>
        obtain ⟨c, hc, hK⟩ := List.mem_flatMap.mp hK
        refine List.mem_flatMap.mpr ⟨c, ?_, hK⟩
        obtain ⟨r, hr, hget⟩ := List.mem_filterMap.mp hc
        exact List.mem_filterMap.mpr ⟨r, hseen r hr, hget⟩
  · cases hK

/-- A column that is not touched keeps its cards. -/
theorem sameCards_of_not_touched (h : K ∉ touchedColumns db ws) :
    SameCards (· = K) db.cards ((kanban ι).applyAll db ws).cards := by
  have htouch : ∀ a ∈ ws, ∀ c, a.record = .card c → c.columnId ≠ K ∧
      ∀ c' ∈ db.cards, c'.id = c.id → c'.columnId ≠ K := by
    intro a ha c hc
    have hin : ∀ k ∈ c.columnId :: (db.cards.filter fun c' => c'.id = c.id).map CardRow.columnId,
        k ≠ K := by
      rintro k hk rfl
      refine h (List.mem_flatMap.mpr ⟨a, ha, ?_⟩)
      rw [hc]
      exact List.mem_flatMap.mpr ⟨c, List.mem_singleton_self c, hk⟩
    refine ⟨hin _ List.mem_cons_self, fun c' hc' hid => hin _ (List.mem_cons_of_mem _ ?_)⟩
    exact List.mem_map_of_mem (List.mem_filter.mpr ⟨hc', decide_eq_true hid⟩)
  rintro c rfl
  refine ⟨fun hc => stored_cards.mem_applyAll_of_mem hc fun a ha c' hr => ?_, fun hc => ?_⟩
  · refine decide_eq_false fun hid => ?_
    exact (htouch a ha c' hr).2 c hc hid.symm rfl
  · rcases stored_cards.mem_applyAll hc with hput | hold
    · exact absurd rfl (htouch _ hput c rfl).1
    · exact hold.1

end Held

/-- The columns, as parts of the store that calls hold. -/
def columnHolding (codec : IdCodec ι) : Holding (kanban ι) (RequestContext × SharingCall) ι where
  Same K db db' := SameCards (· = K) db.cards db'.cards
  touched := touchedColumns
  held := heldColumns codec
  Sane := Tidy
  Grows := Grown
  same_refl _ _ := .refl
  same_trans _ _ _ _ := .trans
  same_of_not_touched _ _ _ := sameCards_of_not_touched
  grows_refl _ := .refl
  grows_trans _ _ _ := .trans
  held_failed _ _ := heldColumns_cons nofun
  held_ran _ _ _ := heldColumns_cons nofun
  held_called _ _ _ _ := heldColumns_cons nofun
  held_nothing _ _ := heldColumns_cons fun _ h => by cases h; rfl

end Kanban.Rpc
