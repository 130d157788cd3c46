import Kanban.Rpc.Coherence
import Kanban.Rpc.Listings

/-!
# Listings while the board changes

Between two pages of a listing cards may be moved, transferred or deleted.  The cursor names a card,
and the next page shows what comes after that card where it is now: after a move, cards that were
not shown yet may stand before it, and once it is deleted nothing comes after it.

## Main definitions

* `Browsing` — the pages that a client has read, with calls in between.
* `EndsTruly` — a last page leaves no card unreturned that was listed throughout.
-/

namespace Kanban.Rpc

open Program Kanban.Store Kanban.Auth Paging
open Kanban.Services (AuthContext ConnectError IdCodec)

variable {ι : Type} [DecidableEq ι]

/-- The listing that a client reads: its board, with a filter for a column. -/
structure BoardFilter (ι : Type) where
  tenantId : String
  boardId : ι
  column : Option ι

/-- The card is listed. -/
def BoardFilter.Lists (F : BoardFilter ι) (db : Db ι) (i : ι) : Prop :=
  i ∈ (boardCards db F.tenantId F.boardId F.column).map CardRow.id

instance {F : BoardFilter ι} {db : Db ι} {i : ι} : Decidable (F.Lists db i) :=
  inferInstanceAs (Decidable (i ∈ _))

section Browsing

variable (codec : IdCodec ι) (unicode : Unicode) (pages : ℕ)
  (page : String → Handler ι ListCardsByBoardResponse) (F : BoardFilter ι)

/-- A client has read some pages, the last of which names a cursor.  `kept` are the cards that were
listed throughout, and the cursor is the id of the card `x`, as it was when the page was read. -/
inductive Browsing : World (Db ι) (Backend ι) → List ListCardsByBoardResponse → (ι → Prop) →
    CardRow ι → World (Db ι) (Backend ι) → Prop
  | first {w : World (Db ι) (Backend ι)} {r : ListCardsByBoardResponse} {x : CardRow ι} :
      Answers page w.store "" r → x ∈ w.store.cards → r.nextCursor = codec.toString x.id →
      Browsing w [r] (F.Lists w.store) x w
  | call {w w₁ w₂ : World (Db ι) (Backend ι)} {rs : List ListCardsByBoardResponse} {kept : ι → Prop}
      {x : CardRow ι} {call : (RequestContext × PlacingCall) × List (Act (Move ι))} :
      Browsing w rs kept x w₁ →
      serialStep (kanban ι) (placingHandler codec unicode pages) w₁ call = some w₂ →
      Browsing w rs (fun i => kept i ∧ F.Lists w₂.store i) x w₂
  | next {w w₁ : World (Db ι) (Backend ι)} {rs : List ListCardsByBoardResponse} {kept : ι → Prop}
      {r : ListCardsByBoardResponse} {x y : CardRow ι} :
      Browsing w rs kept x w₁ → Answers page w₁.store (codec.toString x.id) r → y ∈ w₁.store.cards →
      r.nextCursor = codec.toString y.id → Browsing w (rs ++ [r]) kept y w₁

end Browsing

/-- If the page is the last, every card was returned that was listed throughout and comes after the
place where the card of the cursor was. -/
def EndsTruly (codec : IdCodec ι) (before : ι → ι → Bool) (rs : List ListCardsByBoardResponse)
    (kept : ι → Prop) (x : CardRow ι) (db : Db ι) (r : ListCardsByBoardResponse) : Prop :=
  r.nextCursor = "" → ∀ c ∈ db.cards, kept c.id → keysetBefore before x c = true →
    codec.toString c.id ∈ (rs ++ [r]).flatMap fun r => r.cards.map Card.id

section Runs

variable {codec : IdCodec ι} {unicode : Unicode} {pages : ℕ} {before : ι → ι → Bool}
  {ctx : RequestContext} {columnId : String} {requestLimit : ℤ} {F : BoardFilter ι}
  {w w' : World (Db ι) (Backend ι)} {rs : List ListCardsByBoardResponse} {kept : ι → Prop}
  {x : CardRow ι} {r : ListCardsByBoardResponse}

/-- Whatever was listed throughout is listed now. -/
theorem Browsing.lists {page : String → Handler ι ListCardsByBoardResponse}
    (h : Browsing codec unicode pages page F w rs kept x w') : ∀ i, kept i → F.Lists w'.store i := by
  induction h with
  | first _ _ _ => exact fun i hi => hi
  | call _ _ _ => exact fun i hi => hi.2
  | next _ _ _ _ ih => exact ih

theorem Browsing.keyed {page : String → Handler ι ListCardsByBoardResponse}
    (h : Browsing codec unicode pages page F w rs kept x w') (hdb : Keyed w.store) :
    Keyed w'.store := by
  induction h with
  | first _ _ _ => exact hdb
  | call _ hs ih =>
      exact serial_of_writes (fun _ ws h => Keyed.applyAll h ws)
        (Machine.ExecWhile.cons trivial hs .nil) ih
  | next _ _ _ _ ih => exact ih

/-- A card of the listing comes after the card of the cursor where that is now. -/
theorem mem_cardsAfter (hdb : Keyed w.store) {c : CardRow ι} : c ∈ cardsAfter before w.store F.tenantId
      F.boardId F.column (some x.id) ↔
    c ∈ boardCards w.store F.tenantId F.boardId F.column ∧ ∃ y ∈ w.store.cards, y.id = x.id ∧
      y.tenantId = F.tenantId ∧ keysetBefore before y c = true := by
  unfold cardsAfter
  rw [List.mem_filter, mem_boardListing, Option.any_eq_true]
  refine and_congr_right fun _ => ⟨?_, ?_⟩
  · rintro ⟨y, hy, hyc⟩
    obtain ⟨hid, htenant⟩ : y.id = x.id ∧ y.tenantId = F.tenantId := by simpa using List.find?_some hy
    exact ⟨y, List.mem_of_find?_eq_some hy, hid, htenant, hyc⟩
  · rintro ⟨y, hy, hid, htenant, hyc⟩
    exact ⟨y, hid ▸ hdb.find? hy htenant, hyc⟩

/-- **Where a listing ends falsely.**  A page after some others ends the listing truly exactly if more
cards than fit come after the card of the cursor where that is now, or it is still there and comes
before every card that is owed. -/
theorem listing_ends_truly_iff (h : IdOrder before) (hdb : Keyed w.store)
    (hreq : BoardRequest codec ctx columnId F.tenantId F.boardId F.column)
    (hrun : Browsing codec unicode pages (boardPage codec before ctx columnId requestLimit) F w rs kept x w')
    (htext : ∀ c ∈ w'.store.cards, codec.toString c.id ≠ "") (hx : codec.toString x.id ≠ "")
    (hr : Answers (boardPage codec before ctx columnId requestLimit) w'.store (codec.toString x.id) r) :
    EndsTruly codec before rs kept x w'.store r ↔
      pageLimit requestLimit <
        (cardsAfter before w'.store F.tenantId F.boardId F.column (some x.id)).length ∨
      ∀ c ∈ w'.store.cards, kept c.id → keysetBefore before x c = true →
        codec.toString c.id ∉ rs.flatMap (fun r => r.cards.map Card.id) →
        ∃ y ∈ w'.store.cards, y.id = x.id ∧ y.tenantId = F.tenantId ∧
          keysetBefore before y c = true := by
  have hdb' := hrun.keyed hdb
  obtain ⟨after, hafter, hcards, hnext⟩ :=
    hr.post (E := fun _ => True) (solo_listCardsByBoard h hreq)
  obtain rfl := hafter.of_toString hx
  generalize hN : cardsAfter before w'.store F.tenantId F.boardId F.column (some x.id) = N at *
  have hmem : ∀ c ∈ N, c ∈ w'.store.cards := by
    intro c hc
    rw [← hN, mem_cardsAfter hdb'] at hc
    exact (List.mem_filter.mp hc.1).1
  -- the page is the last one exactly if everything fits
  have hlast : r.nextCursor = "" ↔ ¬ pageLimit requestLimit < N.length := by
    by_cases hlt : pageLimit requestLimit < N.length
    · rw [if_pos hlt] at hnext
      obtain ⟨pre, y, htake, hcat, -⟩ := exists_take_eq (pageLimit_bounds requestLimit).1 (Nat.le_of_lt hlt)
      rw [htake, List.getLast?_append, List.getLast?_singleton, Option.some_or, Option.map_some,
        Option.getD_some] at hnext
      have hy : y ∈ N := hcat ▸ List.mem_append_right _ List.mem_cons_self
      simp [hnext, htext y (hmem y hy), hlt]
    · rw [if_neg hlt] at hnext
      simp [hnext, hlt]
  have hall : r.nextCursor = "" → r.cards.map Card.id = N.map fun c => codec.toString c.id := by
    intro hend
    rwa [List.take_of_length_le (Nat.not_lt.mp (hlast.mp hend))] at hcards
  have hshown : r.nextCursor = "" → ∀ c ∈ w'.store.cards, kept c.id →
      (codec.toString c.id ∈ r.cards.map Card.id ↔ ∃ y ∈ w'.store.cards, y.id = x.id ∧
        y.tenantId = F.tenantId ∧ keysetBefore before y c = true) := by
    intro hend c hc hkept
    have hlisted : c ∈ boardCards w'.store F.tenantId F.boardId F.column := by
      obtain ⟨c', hc', hid⟩ := List.mem_map.mp (hrun.lists _ hkept)
      rwa [← hdb'.eq_of_mem (List.mem_filter.mp hc').1 hc hid]
    rw [hall hend, List.mem_map]
    constructor
    · rintro ⟨n, hn, heq⟩
      obtain rfl := hdb'.eq_of_mem (hmem n hn) hc (codec.toString_injective heq)
      rw [← hN, mem_cardsAfter hdb'] at hn
      exact hn.2
    · intro hy
      exact ⟨c, hN ▸ (mem_cardsAfter hdb').mpr ⟨hlisted, hy⟩, rfl⟩
  constructor
  · intro htruly
    refine or_iff_not_imp_left.mpr fun hle c hc hkept hxc hnew => ?_
    have hend := hlast.mpr hle
    have hin := htruly hend c hc hkept hxc
    rw [List.flatMap_append, List.flatMap_singleton, List.mem_append] at hin
    exact (hshown hend c hc hkept).mp (hin.resolve_left hnew)
  · rintro (hlt | howed) hend c hc hkept hxc
    · exact absurd hlt (hlast.mp hend)
    · rw [List.flatMap_append, List.flatMap_singleton, List.mem_append]
      by_cases hold : codec.toString c.id ∈ rs.flatMap fun r => r.cards.map Card.id
      · exact .inl hold
      · exact .inr ((hshown hend c hc hkept).mpr (howed c hc hkept hxc hold))

end Runs

/-- The listing of the board `b`. -/
def wholeBoard : BoardFilter String := ⟨"t", "b", none⟩

/-- A `DeleteCard` from its first step to its last. -/
def deletesListed (cardId event : String) : (RequestContext × PlacingCall) × List (Act (Move String)) :=
  ((annOn cardId, .deleteCard), [.ok, .ok, .ok, .ok, .move (.fresh event), .ok, .ok, .ok,
    .move .done, .move (.page 10)])

/-- A card that was not shown yet is deleted. -/
theorem listing_ends_truly_iff_deleted :
    ∃ r w' r', Browsing textIds ⟨Char.isAlphanum, id⟩ 1
        (boardPage textIds textBefore boardMember "" 1) wholeBoard threeCards [r]
        (fun i => wholeBoard.Lists threeCards.store i ∧ wholeBoard.Lists w'.store i)
        (boardCard "d" "x" 0) w' ∧
      Answers (boardPage textIds textBefore boardMember "" 1) w'.store "d" r' ∧
      r'.cards.map Card.id = ["f"] ∧ EndsTruly textIds textBefore [r]
        (fun i => wholeBoard.Lists threeCards.store i ∧ wholeBoard.Lists w'.store i)
        (boardCard "d" "x" 0) w'.store r' := by
  obtain ⟨th, w, w', th', w'', r, r', hrun, hr, hcall, hrun', hr', hnext, hcards, hkeys⟩ :
      ∃ th w w' th' w'' r r',
      Machine.run (Thread.step (kanban String))
        (Thread.start (boardPage textIds textBefore boardMember "" 1 ""), threeCards)
        (List.replicate 8 .ok) = some (th, w) ∧ th.prog.result = some (.ok r) ∧
      serialStep (kanban String) (placingHandler textIds ⟨Char.isAlphanum, id⟩ 1) threeCards
        (deletesListed "e" "v") = some w' ∧
      Machine.run (Thread.step (kanban String))
        (Thread.start (boardPage textIds textBefore boardMember "" 1 "d"), w')
        (List.replicate 8 .ok) = some (th', w'') ∧ th'.prog.result = some (.ok r') ∧
      r.nextCursor = "d" ∧ r'.cards.map Card.id = ["f"] ∧
      w'.store.cards = [boardCard "f" "x" 1, boardCard "d" "x" 0] :=
    ⟨_, _, _, _, _, _, _, rfl, rfl, rfl, rfl, rfl, rfl, rfl, rfl⟩
  have hbrowsing : Browsing textIds ⟨Char.isAlphanum, id⟩ 1
      (boardPage textIds textBefore boardMember "" 1) wholeBoard threeCards [r]
      (fun i => wholeBoard.Lists threeCards.store i ∧ wholeBoard.Lists w'.store i)
      (boardCard "d" "x" 0) w' :=
    .call (.first ⟨_, _, _, _, rfl, Machine.exec_of_run hrun, hr⟩ (by decide) hnext) hcall
  have hpage : Answers (boardPage textIds textBefore boardMember "" 1) w'.store "d" r' :=
    ⟨_, _, _, _, rfl, Machine.exec_of_run hrun', hr'⟩
  refine ⟨r, w', r', hbrowsing, hpage, hcards, ?_⟩
  have hreq : BoardRequest textIds boardMember "" "t" "b" none := ⟨rfl, rfl, .inl ⟨rfl, rfl⟩⟩
  refine (listing_ends_truly_iff idOrder_text (by decide) hreq hbrowsing ?_ (by decide) hpage).mpr (.inr ?_)
  · rw [hkeys]
    decide
  · intro c _ _ hdc _
    exact ⟨boardCard "d" "x" 0, by rw [hkeys]; decide, rfl, rfl, hdc⟩

/-- The card of the cursor is deleted, and the listing ends with an empty page while a card remains
that was never shown. -/
theorem listing_ends_falsely :
    ∃ r w' r' kept, Browsing textIds ⟨Char.isAlphanum, id⟩ 1
        (boardPage textIds textBefore boardMember "" 2) wholeBoard threeCards [r] kept
        (boardCard "e" "x" 0) w' ∧
      Answers (boardPage textIds textBefore boardMember "" 2) w'.store "e" r' ∧
      r'.cards = [] ∧ ¬ EndsTruly textIds textBefore [r] kept (boardCard "e" "x" 0) w'.store r' := by
  obtain ⟨th, w, w', th', w'', r, r', hrun, hr, hcall, hrun', hr', hnext, hshown, hnone, hend, hkeys⟩ :
      ∃ th w w' th' w'' r r',
      Machine.run (Thread.step (kanban String))
        (Thread.start (boardPage textIds textBefore boardMember "" 2 ""), threeCards)
        (List.replicate 15 .ok) = some (th, w) ∧ th.prog.result = some (.ok r) ∧
      serialStep (kanban String) (placingHandler textIds ⟨Char.isAlphanum, id⟩ 1) threeCards
        (deletesListed "e" "v") = some w' ∧
      Machine.run (Thread.step (kanban String))
        (Thread.start (boardPage textIds textBefore boardMember "" 2 "e"), w')
        [.ok] = some (th', w'') ∧ th'.prog.result = some (.ok r') ∧
      r.nextCursor = "e" ∧ r.cards.map Card.id = ["d", "e"] ∧ r'.cards = [] ∧ r'.nextCursor = "" ∧
      w'.store.cards = [boardCard "f" "x" 1, boardCard "d" "x" 0] :=
    ⟨_, _, _, _, _, _, _, rfl, rfl, rfl, rfl, rfl, rfl, rfl, rfl, rfl, rfl⟩
  refine ⟨r, w', r', _, .call (.first ⟨_, _, _, _, rfl, Machine.exec_of_run hrun, hr⟩ (by decide) hnext)
    hcall, ⟨_, _, _, _, rfl, Machine.exec_of_run hrun', hr'⟩, hnone, fun htruly => ?_⟩
  have hlisted : wholeBoard.Lists w'.store "f" := by
    unfold BoardFilter.Lists boardCards
    rw [hkeys]
    decide
  have hin := htruly hend (boardCard "f" "x" 1) (by rw [hkeys]; decide) ⟨by decide, hlisted⟩ (by decide)
  simp [hshown, hnone] at hin
  revert hin
  decide

end Kanban.Rpc
