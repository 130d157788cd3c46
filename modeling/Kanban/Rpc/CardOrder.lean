import Kanban.Lib.Shelf
import Kanban.Rpc.Alone
import Kanban.Rpc.Coherence
import Kanban.Rpc.Placement

/-!
# The order of the cards of a column

The cards of a column stand in the order of their positions.  A handler that creates, moves,
transfers or deletes a card shifts the positions of others first, and puts the card where the shift
has made room.  The ranges that it shifts are those of a column without gaps; the positions of a
column may have gaps, and may be anywhere.

## Main definitions

* `columnShelf` — the cards of a column, each at its position.
* `Shift`, `shiftCardsAll` — the cards after some shifts, and whether the shifts fit.
* `Puts` — a card is put among the others after some shifts.
-/

namespace Kanban.Rpc

open Program Kanban.Store Kanban.Auth
open Kanban.Services (AuthContext ConnectError IdCodec)

variable {ι α β : Type} [DecidableEq ι]

/-! ## Columns as shelves -/

/-- The cards of a column, each at its position. -/
def columnShelf (cards : List (CardRow ι)) (tenantId : String) (columnId : ι) : List (ι × ℤ) :=
  (cards.filter fun c => c.columnId = columnId ∧ c.tenantId = tenantId).map fun c =>
    (c.id, c.position)

/-- The cards but for one. -/
def otherCards (cards : List (CardRow ι)) (cardId : ι) : List (CardRow ι) :=
  cards.filter fun c => c.id ≠ cardId

/-- A range of positions of a column, and how far it moves. -/
structure Shift (ι : Type) where
  columnId : ι
  range : ℤ → Bool
  delta : ℤ

/-- Every new position is in the range of an `INT` column. -/
def Shift.Fits (s : Shift ι) (tenantId : String) (cards : List (CardRow ι)) : Prop :=
  ∀ c ∈ cards, c.columnId = s.columnId ∧ c.tenantId = tenantId ∧ s.range c.position →
    (int4 (c.position + s.delta)).isSome

/-- The cards after a shift. -/
def Shift.apply (s : Shift ι) (tenantId : String) (cards : List (CardRow ι)) : List (CardRow ι) :=
  cards.map fun c => if c.columnId = s.columnId ∧ c.tenantId = tenantId ∧ s.range c.position then
    { c with position := c.position + s.delta } else c

section Shelves

variable {cards cards' : List (CardRow ι)} {t t' : String} {K K' x : ι} {s : Shift ι}
  {row : CardRow ι}

theorem mem_columnShelf {a : ι × ℤ} : a ∈ columnShelf cards t K ↔
    ∃ c ∈ cards, c.columnId = K ∧ c.tenantId = t ∧ (c.id, c.position) = a := by
  simp [columnShelf, and_assoc]

theorem columnShelf_perm (h : cards.Perm cards') :
    (columnShelf cards t K).Perm (columnShelf cards' t K) := (h.filter _).map _

theorem columnShelf_cons_self (hK : row.columnId = K) (ht : row.tenantId = t) :
    columnShelf (row :: cards) t K = (row.id, row.position) :: columnShelf cards t K := by
  simp [columnShelf, hK, ht]

theorem columnShelf_cons_of_ne (h : ¬ (row.columnId = K ∧ row.tenantId = t)) :
    columnShelf (row :: cards) t K = columnShelf cards t K := by
  simp [columnShelf, h]

theorem columnShelf_otherCards :
    columnShelf (otherCards cards x) t K = Shelf.others x (columnShelf cards t K) := by
  unfold columnShelf otherCards Shelf.others
  rw [List.filter_filter, List.filter_map, List.filter_filter]
  congr 1
  refine List.filter_congr fun c _ => ?_
  simp [Bool.and_comm]

theorem columnShelf_shift_self :
    columnShelf (s.apply t cards) t s.columnId =
      Shelf.shift s.range s.delta (columnShelf cards t s.columnId) := by
  have hrows : s.apply t cards = cards.map fun c => if decide (c.columnId = s.columnId ∧
      c.tenantId = t) = true ∧ s.range c.position then
        { c with position := c.position + s.delta } else c :=
    List.map_congr_left fun c _ => by simp only [decide_eq_true_eq, and_assoc]
  rw [hrows]
  exact Shelf.shift_rows (r := fun c => c.columnId = s.columnId ∧ c.tenantId = t)
    (f := fun c => (c.id, c.position)) (g := fun c => { c with position := c.position + s.delta })
    (fun _ => rfl) (fun _ => rfl) cards

theorem columnShelf_shift_of_ne (h : ¬ (s.columnId = K' ∧ t = t')) :
    columnShelf (s.apply t cards) t' K' = columnShelf cards t' K' := by
  unfold columnShelf Shift.apply
  rw [List.filter_map, List.map_map]
  have hfilter : (cards.filter ((fun c => decide (c.columnId = K' ∧ c.tenantId = t')) ∘
      fun c => if c.columnId = s.columnId ∧ c.tenantId = t ∧ s.range c.position = true then
        { c with position := c.position + s.delta } else c)) =
      cards.filter fun c => c.columnId = K' ∧ c.tenantId = t' := by
    refine List.filter_congr fun c _ => ?_
    dsimp only [Function.comp_apply]
    split <;> rfl
  rw [hfilter]
  refine List.map_congr_left fun c hc => ?_
  have hc : c.columnId = K' ∧ c.tenantId = t' := by simpa using (List.mem_filter.mp hc).2
  dsimp only [Function.comp_apply]
  rw [if_neg fun hs => h ⟨hs.1.symm.trans hc.1, hs.2.1.symm.trans hc.2⟩]

theorem Shift.ids_apply : (s.apply t cards).map CardRow.id = cards.map CardRow.id := by
  unfold Shift.apply
  rw [List.map_map]
  refine List.map_congr_left fun c _ => ?_
  dsimp only [Function.comp_apply]
  split <;> rfl

end Shelves

/-! ## Statements about cards -/

section Statements

variable {db : Db ι} {t msg : String} {K x : ι}

theorem cards_shiftCards {p : ℤ → Bool} {delta : ℤ} {e : Effect (Rec ι) (List (CardRow ι))}
    (hdb : Keyed db) (he : shiftCards t K p delta db = some e) :
    ((kanban ι).applyAll db e.writes).cards = Shift.apply ⟨K, p, delta⟩ t db.cards ∧
      Shift.Fits ⟨K, p, delta⟩ t db.cards := by
  obtain ⟨hrows, hfits⟩ := stored_cards.rows_updateChecked same_cards
    (g := fun c => { c with position := c.position + delta }) he
    (fun c c' hc => by
      obtain ⟨n, hn, rfl⟩ := Option.map_eq_some_iff.mp hc
      rw [int4_eq_some hn]) (fun _ => rfl) hdb
  refine ⟨hrows.trans (List.map_congr_left fun c _ => ?_), fun c hc hin => ?_⟩
  · simp only [decide_eq_true_eq]
  · simpa using hfits c hc (decide_eq_true hin)

theorem shiftCards_isSome {s : Shift ι} (h : s.Fits t db.cards) :
    (shiftCards t s.columnId s.range s.delta db).isSome :=
  Table.updateChecked_isSome fun c hc hp => by
    rw [Option.isSome_map]
    exact h c hc (of_decide_eq_true hp)

/-- The row of a card among the others. -/
theorem exists_otherCards {cards : List (CardRow ι)} (hcards : (cards.map CardRow.id).Nodup)
    {c : CardRow ι} (hc : c ∈ cards) :
    ∃ l₁ l₂, cards = l₁ ++ c :: l₂ ∧ (∀ c' ∈ l₁ ++ l₂, c'.id ≠ c.id) ∧
      otherCards cards c.id = l₁ ++ l₂ := by
  obtain ⟨l₁, l₂, rfl⟩ := List.append_of_mem hc
  have hne : ∀ c' ∈ l₁ ++ l₂, c'.id ≠ c.id := by
    intro c' hc' heq
    have hnodup := (List.perm_middle.map CardRow.id).nodup_iff.mp hcards
    rw [List.map_cons] at hnodup
    exact (List.nodup_cons.mp hnodup).1 (heq ▸ List.mem_map_of_mem hc')
  refine ⟨l₁, l₂, rfl, hne, ?_⟩
  have hfilter : ∀ l : List (CardRow ι), (∀ c' ∈ l, c'.id ≠ c.id) →
      l.filter (fun c' => c'.id ≠ c.id) = l := fun l hl =>
    List.filter_eq_self.mpr fun c' hc' => decide_eq_true (hl c' hc')
  unfold otherCards
  rw [List.filter_append, List.filter_cons_of_neg (by simp),
    hfilter l₁ fun c' hc' => hne c' (List.mem_append_left _ hc'),
    hfilter l₂ fun c' hc' => hne c' (List.mem_append_right _ hc')]

/-- The cards after the row of one of them was changed. -/
theorem cards_updateCardRow {f : CardRow ι → CardRow ι} {e : Effect (Rec ι) (List (CardRow ι))}
    {row : CardRow ι} (hdb : Keyed db) (he : updateCardRow t x f db = some e)
    (hf : ∀ c, (f c).id = c.id) (hrow : e.answer.head? = some row) :
    ∃ c ∈ db.cards, c.id = x ∧ c.tenantId = t ∧ row = f c ∧
      ((kanban ι).applyAll db e.writes).cards.Perm (row :: otherCards db.cards x) := by
  have hrows := stored_cards.rows_update same_cards he hf hdb
  cases he
  obtain ⟨c, hmem, rfl⟩ := List.mem_map.mp (List.mem_of_mem_head? hrow)
  obtain ⟨hc, hp⟩ := List.mem_filter.mp hmem
  obtain ⟨rfl, rfl⟩ : c.id = x ∧ c.tenantId = t := by simpa using hp
  refine ⟨c, hc, rfl, rfl, rfl, ?_⟩
  obtain ⟨l₁, l₂, hsplit, hne, hothers⟩ := exists_otherCards hdb hc
  have hsame : ∀ l : List (CardRow ι), (∀ c' ∈ l, c'.id ≠ c.id) →
      l.map (fun c' => if decide (c'.id = c.id ∧ c'.tenantId = c.tenantId) = true then f c' else c') =
        l := by
    intro l hl
    refine (List.map_congr_left fun c' hc' => if_neg ?_).trans (List.map_id l)
    simp [hl c' hc']
  have hcards : ((kanban ι).applyAll db (((db.cards.filter fun c' => decide (c'.id = c.id ∧
      c'.tenantId = c.tenantId)).map fun c' => .put (.card (f c'))))).cards = l₁ ++ f c :: l₂ := by
    refine Eq.trans hrows ?_
    show db.cards.map _ = _
    rw [hsplit, List.map_append, List.map_cons,
      hsame l₁ fun c' hc' => hne c' (List.mem_append_left _ hc'),
      hsame l₂ fun c' hc' => hne c' (List.mem_append_right _ hc'), if_pos (by simp)]
  rw [hothers]
  exact (List.Perm.of_eq hcards).trans List.perm_middle

/-- The cards after a new one was inserted. -/
theorem cards_insertCard {row : CardRow ι} {e : Effect (Rec ι) Unit}
    (he : insertCard row db = some e) :
    ((kanban ι).applyAll db e.writes).cards.Perm (row :: otherCards db.cards row.id) ∧
      ∀ c ∈ db.cards, c.id ≠ row.id := by
  unfold insertCard at he
  split at he
  · cases he
  · obtain ⟨hrows, hnew⟩ := stored_cards.rows_insert he
    have hne : ∀ c ∈ db.cards, c.id ≠ row.id := by
      intro c hc heq
      have := hnew c hc
      simp [heq] at this
    have hothers : otherCards db.cards row.id = db.cards :=
      List.filter_eq_self.mpr fun c hc => decide_eq_true (hne c hc)
    rw [hothers]
    exact ⟨(List.Perm.of_eq hrows).trans (List.perm_append_singleton _ _), hne⟩

/-- The cards after one was deleted. -/
theorem cards_deleteCardRow {e : Effect (Rec ι) (List (CardRow ι))} (hdb : Keyed db)
    (he : deleteCardRow t x db = some e) (hsome : e.answer ≠ []) :
    ((kanban ι).applyAll db e.writes).cards = otherCards db.cards x := by
  have hchildren : ∀ (rows : List (CardRow ι)), ∀ a ∈ (if rows = [] then [] else
      cardChildren db x).map (Write.del (ρ := Rec ι)), ∀ c, a.record ≠ .card c := by
    rintro rows a ha c heq
    obtain ⟨r, hr, rfl⟩ := List.mem_map.mp ha
    obtain rfl : r = .card c := heq
    split at hr
    · cases hr
    · simp [cardChildren] at hr
  have hdel := stored_cards.rows_delete same_cards (s := db)
    (p := fun c => decide (c.id = x ∧ c.tenantId = t)) rfl hdb
  obtain rfl := deleteCardRow_some he
  obtain ⟨c, hmem⟩ := List.exists_mem_of_ne_nil _ hsome
  obtain ⟨hc, hp⟩ := List.mem_filter.mp hmem
  obtain ⟨rfl, rfl⟩ : c.id = x ∧ c.tenantId = t := by simpa using hp
  rw [Semantics.applyAll_append]
  refine (stored_cards.rows_applyAll (hchildren _)).trans (Eq.trans hdel ?_)
  refine List.filter_congr fun c' hc' => ?_
  by_cases hid : c'.id = c.id
  · obtain rfl := hdb.eq_of_mem hc' hc hid
    simp
  · simp [hid]

end Statements

/-! ## A card is put among the others -/

/-- The cards after several shifts. -/
def shiftAll (tenantId : String) (shifts : List (Shift ι)) (cards : List (CardRow ι)) :
    List (CardRow ι) :=
  shifts.foldl (fun cards s => s.apply tenantId cards) cards

/-- The shifts fit, and `cards'` are the cards after them with `row` put among the others. -/
structure Puts (tenantId : String) (shifts : List (Shift ι)) (row : CardRow ι)
    (cards cards' : List (CardRow ι)) : Prop where
  tenant : row.tenantId = tenantId
  fits : ∀ s ∈ shifts, s.Fits tenantId cards
  cards : cards'.Perm (row :: otherCards (shiftAll tenantId shifts cards) row.id)

/-- No two cards of a column share a position. -/
def CardsApart (cards : List (CardRow ι)) : Prop :=
  ∀ tenantId columnId, Shelf.Apart (columnShelf cards tenantId columnId)

/-- The card `row` is put at the index `i` of its column, and the others keep their order. -/
structure PutAt (row : CardRow ι) (i : ℕ) (cards cards' : List (CardRow ι)) : Prop where
  apart : CardsApart cards'
  here : Shelf.order (columnShelf cards' row.tenantId row.columnId) =
    (Shelf.order (Shelf.others row.id (columnShelf cards row.tenantId row.columnId))).insertIdx i row.id
  there : ∀ t K, ¬ (row.columnId = K ∧ row.tenantId = t) →
    Shelf.order (columnShelf cards' t K) = Shelf.order (Shelf.others row.id (columnShelf cards t K))

/-- The shifts of a move: the range between the old and the new position, or the gap that the card
leaves and the slot that it takes. -/
def moveShifts (card : CardRow ι) (toColId : ι) (toPos : ℤ) : List (Shift ι) :=
  if card.columnId = toColId then
    if card.position = toPos then []
    else if card.position < toPos then
      [⟨card.columnId, fun p => card.position < p ∧ p ≤ toPos, -1⟩]
    else [⟨card.columnId, fun p => toPos ≤ p ∧ p < card.position, 1⟩]
  else [⟨card.columnId, fun p => card.position < p, -1⟩, ⟨toColId, fun p => toPos ≤ p, 1⟩]

/-- The shifts before an insertion at a position, where 0 asks for the end of the column. -/
def insertShifts (columnId : ι) (position : ℤ) : List (Shift ι) :=
  if position = 0 then [] else [⟨columnId, fun p => position ≤ p, 1⟩]

/-- The index at which a move puts the card: the number of other cards below the new position, or
up to it when the card goes up in its own column. -/
def moveIndex (card : CardRow ι) (toColId : ι) (toPos : ℤ) (cards : List (CardRow ι)) : ℕ :=
  Shelf.below (if card.columnId = toColId ∧ card.position < toPos then toPos + 1 else toPos)
    (Shelf.others card.id (columnShelf cards card.tenantId toColId))

section Puts

variable {cards cards' : List (CardRow ι)} {t : String} {shifts : List (Shift ι)} {row : CardRow ι}
  {i : ℕ}

/-- The shift before an insertion brings no card in and takes none away. -/
theorem forall_ne_insertShifts {K x : ι} {position : ℤ} :
    (∀ c ∈ shiftAll t (insertShifts K position) cards, c.id ≠ x) ↔ ∀ c ∈ cards, c.id ≠ x := by
  have hids : (shiftAll t (insertShifts K position) cards).map CardRow.id = cards.map CardRow.id := by
    unfold insertShifts
    split
    · rfl
    · exact Shift.ids_apply
  have hmem : ∀ l : List (CardRow ι), (∀ c ∈ l, c.id ≠ x) ↔ x ∉ l.map CardRow.id := fun l => by simp
  rw [hmem, hmem, hids]

/-- What is left to show when a card is put: its position is free among the others, and the shifts
keep their order. -/
theorem Puts.putAt (h : Puts t shifts row cards cards')
    (hopen : Shelf.Open row.position (Shelf.others row.id
      (columnShelf (shiftAll t shifts cards) t row.columnId)))
    (horder : ∀ t' K, ¬ (row.columnId = K ∧ t = t') →
      Shelf.Apart (Shelf.others row.id (columnShelf (shiftAll t shifts cards) t' K)) ∧
      Shelf.order (Shelf.others row.id (columnShelf (shiftAll t shifts cards) t' K)) =
        Shelf.order (Shelf.others row.id (columnShelf cards t' K)))
    (hhere : Shelf.order (Shelf.others row.id (columnShelf (shiftAll t shifts cards) t row.columnId)) =
      Shelf.order (Shelf.others row.id (columnShelf cards t row.columnId)))
    (hindex : Shelf.below row.position (Shelf.others row.id
      (columnShelf (shiftAll t shifts cards) t row.columnId)) = i) :
    PutAt row i cards cards' := by
  obtain ⟨htenant, -, hperm⟩ := h
  obtain ⟨hput, hat⟩ := hopen.put row.id
  have hcol : (columnShelf cards' t row.columnId).Perm ((row.id, row.position) ::
      Shelf.others row.id (columnShelf (shiftAll t shifts cards) t row.columnId)) := by
    rw [← columnShelf_otherCards, ← columnShelf_cons_self rfl htenant]
    exact columnShelf_perm hperm
  have hrest : ∀ t' K, ¬ (row.columnId = K ∧ t = t') → (columnShelf cards' t' K).Perm
      (Shelf.others row.id (columnShelf (shiftAll t shifts cards) t' K)) := by
    intro t' K hne
    have hcols : (columnShelf cards' t' K).Perm
        (columnShelf (row :: otherCards (shiftAll t shifts cards) row.id) t' K) :=
      columnShelf_perm hperm
    rwa [columnShelf_cons_of_ne (htenant ▸ hne), columnShelf_otherCards] at hcols
  refine ⟨fun t' K => ?_, ?_, fun t' K hne => ?_⟩
  · by_cases hK : row.columnId = K ∧ t = t'
    · obtain ⟨rfl, rfl⟩ := hK
      exact hput.perm hcol.symm
    · exact (horder t' K hK).1.perm (hrest t' K hK).symm
  · rw [htenant, Shelf.order_perm (hput.perm hcol.symm) hcol, hat, hhere, hindex]
  · rw [htenant] at hne
    obtain ⟨hapart, heq⟩ := horder t' K hne
    rw [Shelf.order_perm (hapart.perm (hrest t' K hne).symm) (hrest t' K hne), heq]

/-- A card is put at the end of a column. -/
theorem Puts.atTop (h : Puts t [] row cards cards') (hcards : CardsApart cards)
    (hpos : row.position = Shelf.top (columnShelf cards t row.columnId)) :
    PutAt row (Shelf.others row.id (columnShelf cards t row.columnId)).length cards cards' := by
  refine h.putAt ?_ (fun t' K _ => ⟨Shelf.apart_others (hcards t' K), rfl⟩) rfl ?_
  · exact ⟨Shelf.apart_others (hcards _ _), fun s hs => hpos ▸
      (Shelf.lt_top (List.mem_filter.mp hs).1).ne⟩
  · exact List.countP_eq_length.mpr fun s hs => decide_eq_true
      (hpos ▸ Shelf.lt_top (List.mem_filter.mp hs).1)

/-- A new card is put at a position of a column. -/
theorem Puts.atPosition {K : ι} (h : Puts t [⟨K, fun p => row.position ≤ p, 1⟩] row cards cards')
    (hcards : CardsApart cards) (hK : row.columnId = K) :
    PutAt row (Shelf.below row.position (Shelf.others row.id (columnShelf cards t K))) cards
      cards' := by
  subst hK
  have hself : Shelf.others row.id (columnShelf (shiftAll t [⟨row.columnId, fun p =>
      row.position ≤ p, 1⟩] cards) t row.columnId) = Shelf.shift (row.position ≤ ·) 1
        (Shelf.others row.id (columnShelf cards t row.columnId)) := by
    rw [← Shelf.others_shift]
    exact congrArg _ columnShelf_shift_self
  obtain ⟨hopen, horder, hbelow⟩ := Shelf.open_above
    (Shelf.apart_others (a := row.id) (hcards t row.columnId)) row.position
  refine h.putAt (hself ▸ hopen) (fun t' K' hne => ?_) (hself ▸ horder) (hself ▸ hbelow)
  have hsame : columnShelf (shiftAll t [⟨row.columnId, fun p => row.position ≤ p, 1⟩] cards) t' K' =
    columnShelf cards t' K' := columnShelf_shift_of_ne hne
  rw [hsame]
  exact ⟨Shelf.apart_others (hcards t' K'), rfl⟩

/-- A card is moved within its column. -/
theorem Puts.within {card : CardRow ι} {toPos : ℤ}
    (h : Puts t (moveShifts card row.columnId toPos) row cards cards') (hcards : CardsApart cards)
    (hcard : card ∈ cards) (hid : row.id = card.id) (ht : card.tenantId = t)
    (hK : card.columnId = row.columnId) (hpos : row.position = toPos) :
    PutAt row (moveIndex card row.columnId toPos cards) cards cards' := by
  have hfree : Shelf.Open card.position
      (Shelf.others row.id (columnShelf cards t row.columnId)) := by
    refine (hcards _ _).open_others (mem_columnShelf.mpr ⟨card, hcard, hK, ht, ?_⟩)
    rw [hid]
  -- a shift of the column leaves the other columns as they are
  have hrest : ∀ (range : ℤ → Bool) delta t' K', ¬ (row.columnId = K' ∧ t = t') →
      columnShelf (shiftAll t [⟨row.columnId, range, delta⟩] cards) t' K' =
        columnShelf cards t' K' := fun _ _ _ _ hne => columnShelf_shift_of_ne hne
  have hself : ∀ (range : ℤ → Bool) delta, Shelf.others row.id
      (columnShelf (shiftAll t [⟨row.columnId, range, delta⟩] cards) t row.columnId) =
        Shelf.shift range delta (Shelf.others row.id (columnShelf cards t row.columnId)) := by
    intro range delta
    rw [← Shelf.others_shift]
    exact congrArg _ columnShelf_shift_self
  have hkeep : ∀ t' K', ¬ (row.columnId = K' ∧ t = t') →
      Shelf.Apart (Shelf.others row.id (columnShelf cards t' K')) ∧
        Shelf.order (Shelf.others row.id (columnShelf cards t' K')) =
          Shelf.order (Shelf.others row.id (columnShelf cards t' K')) := fun t' K' _ =>
    ⟨Shelf.apart_others (hcards t' K'), rfl⟩
  unfold moveShifts at h
  unfold moveIndex
  rw [hK, if_pos rfl] at h
  rw [← hid, ht]
  rcases lt_trichotomy card.position toPos with hlt | heq | hgt
  · rw [if_neg hlt.ne, if_pos hlt] at h
    rw [if_pos ⟨hK, hlt⟩]
    obtain ⟨hopen, horder, hbelow⟩ := Shelf.open_forward hfree hlt
    refine h.putAt ?_ (fun t' K' hne => ?_) ?_ ?_
    · rw [hself, hpos]
      exact hopen
    · rw [hrest _ _ _ _ hne]
      exact hkeep t' K' hne
    · rw [hself]
      exact horder
    · rw [hself, hpos]
      exact hbelow
  · rw [if_pos heq] at h
    rw [if_neg fun hlt => heq.not_lt hlt.2]
    refine h.putAt ?_ hkeep rfl ?_
    · rw [hpos, ← heq]
      exact hfree
    · rw [hpos]
      rfl
  · rw [if_neg hgt.ne', if_neg hgt.not_gt] at h
    rw [if_neg fun hlt => hgt.not_gt hlt.2]
    obtain ⟨hopen, horder, hbelow⟩ := Shelf.open_backward hfree hgt
    refine h.putAt ?_ (fun t' K' hne => ?_) ?_ ?_
    · rw [hself, hpos]
      exact hopen
    · rw [hrest _ _ _ _ hne]
      exact hkeep t' K' hne
    · rw [hself]
      exact horder
    · rw [hself, hpos]
      exact hbelow

/-- A card is moved to another column. -/
theorem Puts.across {card : CardRow ι} {toPos : ℤ}
    (h : Puts t (moveShifts card row.columnId toPos) row cards cards') (hcards : CardsApart cards)
    (hcard : card ∈ cards) (hid : row.id = card.id) (ht : card.tenantId = t)
    (hK : card.columnId ≠ row.columnId) (hpos : row.position = toPos) :
    PutAt row (moveIndex card row.columnId toPos cards) cards cards' := by
  have hfree : Shelf.Open card.position
      (Shelf.others row.id (columnShelf cards t card.columnId)) := by
    refine (hcards _ _).open_others (mem_columnShelf.mpr ⟨card, hcard, rfl, ht, ?_⟩)
    rw [hid]
  rw [moveShifts, if_neg hK] at h
  have hgap : Shelf.others row.id (columnShelf (shiftAll t [⟨card.columnId, fun p =>
      card.position < p, -1⟩, ⟨row.columnId, fun p => toPos ≤ p, 1⟩] cards) t card.columnId) =
        Shelf.shift (card.position < ·) (-1)
          (Shelf.others row.id (columnShelf cards t card.columnId)) := by
    rw [← Shelf.others_shift]
    refine congrArg _ (Eq.trans (columnShelf_shift_of_ne ?_) columnShelf_shift_self)
    exact fun hsame => hK hsame.1.symm
  have hslot : Shelf.others row.id (columnShelf (shiftAll t [⟨card.columnId, fun p =>
      card.position < p, -1⟩, ⟨row.columnId, fun p => toPos ≤ p, 1⟩] cards) t row.columnId) =
        Shelf.shift (toPos ≤ ·) 1 (Shelf.others row.id (columnShelf cards t row.columnId)) := by
    rw [← Shelf.others_shift]
    refine congrArg _ (columnShelf_shift_self.trans (congrArg _ (columnShelf_shift_of_ne ?_)))
    exact fun hsame => hK hsame.1
  obtain ⟨hopen, horder, hbelow⟩ := Shelf.open_above
    (Shelf.apart_others (a := row.id) (hcards t row.columnId)) toPos
  have hindex : moveIndex card row.columnId toPos cards = Shelf.below toPos
      (Shelf.others row.id (columnShelf cards t row.columnId)) := by
    rw [moveIndex, if_neg fun hsame => hK hsame.1, hid, ht]
  rw [hindex]
  refine h.putAt ?_ (fun t' K' hne => ?_) ?_ ?_
  · rw [hslot, hpos]
    exact hopen
  · by_cases hsource : card.columnId = K' ∧ t = t'
    · obtain ⟨rfl, rfl⟩ := hsource
      rw [hgap]
      exact Shelf.close_above hfree
    · have hsame : columnShelf (shiftAll t [⟨card.columnId, fun p => card.position < p, -1⟩,
          ⟨row.columnId, fun p => toPos ≤ p, 1⟩] cards) t' K' = columnShelf cards t' K' :=
        (columnShelf_shift_of_ne hne).trans (columnShelf_shift_of_ne hsource)
      rw [hsame]
      exact ⟨Shelf.apart_others (hcards t' K'), rfl⟩
  · rw [hslot]
    exact horder
  · rw [hslot, hpos]
    exact hbelow

/-- A card is moved. -/
theorem Puts.moved {card : CardRow ι} {toPos : ℤ}
    (h : Puts t (moveShifts card row.columnId toPos) row cards cards') (hcards : CardsApart cards)
    (hcard : card ∈ cards) (hid : row.id = card.id) (ht : card.tenantId = t)
    (hpos : row.position = toPos) :
    PutAt row (moveIndex card row.columnId toPos cards) cards cards' := by
  by_cases hK : card.columnId = row.columnId
  · exact h.within hcards hcard hid ht hK hpos
  · exact h.across hcards hcard hid ht hK hpos

/-- **The others keep their order**, in every column. -/
theorem PutAt.others (h : PutAt row i cards cards') (t : String) (K : ι) :
    Shelf.order (Shelf.others row.id (columnShelf cards' t K)) =
      Shelf.order (Shelf.others row.id (columnShelf cards t K)) := by
  rw [Shelf.order_others (h.apart t K)]
  by_cases hK : row.columnId = K ∧ row.tenantId = t
  · obtain ⟨rfl, rfl⟩ := hK
    rw [h.here, Shelf.filter_insertIdx (by simp)]
    exact List.filter_eq_self.mpr fun a ha => decide_eq_true fun heq =>
      Shelf.not_mem_order_others (heq ▸ ha)
  · rw [h.there t K hK]
    exact List.filter_eq_self.mpr fun a ha => decide_eq_true fun heq =>
      Shelf.not_mem_order_others (heq ▸ ha)

end Puts

end Kanban.Rpc
