import Kanban.Lib.Serial
import Kanban.Rpc.Boards
import Kanban.Rpc.Commits

/-!
# Where a card says it is

A card names its column, its board and its project, and so does the column its board and the
board its project.  The handlers write these names from different rows: the column of the request,
the board of that column, the project of that board.  When calls are executed one after the other,
what a handler has read is still so when it writes, and the names always agree.

## Main definitions

* `Placed`, `Coherent` — the names of a card agree with the column and the board they name.
* `KeepsPlaces`, `Persists` — writes that leave the places alone, and what survives them.
* `Steady` — a program that makes only such writes.
* `PlacingCall`, `placingHandler` — the calls that create, move or delete cards, columns, boards.
* `placement_coherent` — every reachable state of a serial run is coherent.
-/

namespace Kanban.Rpc

open Program Kanban.Store Kanban.Auth
open Kanban.Services (AuthContext ConnectError IdCodec)

variable {ι α β τ : Type} [DecidableEq ι]

/-! ## Coherent databases -/

section Coherent

omit [DecidableEq ι]

/-- The column exists, on the board and in the tenant. -/
def HasColumn (db : Db ι) (id board : ι) (tenant : String) : Prop :=
  ∃ k ∈ db.columns, k.id = id ∧ k.boardId = board ∧ k.tenantId = tenant

/-- The board exists, in the project and in the tenant. -/
def HasBoard (db : Db ι) (id project : ι) (tenant : String) : Prop :=
  ∃ b ∈ db.boards, b.id = id ∧ b.projectId = project ∧ b.tenantId = tenant

/-- The column of the card exists, the board of the card is the board of the column, the project of
the card is the project of the board, and the three are in one tenant. -/
def Placed (db : Db ι) (c : CardRow ι) : Prop :=
  HasColumn db c.columnId c.boardId c.tenantId ∧ HasBoard db c.boardId c.projectId c.tenantId

/-- Every card is placed, and ids are primary keys. -/
structure Coherent (db : Db ι) : Prop where
  boardKeys : (db.boards.map BoardRow.id).Nodup
  columnKeys : (db.columns.map ColumnRow.id).Nodup
  cardKeys : (db.cards.map CardRow.id).Nodup
  placed : ∀ c ∈ db.cards, Placed db c

/-- Two rows of one card in one place. -/
def SamePlace (c c' : CardRow ι) : Prop :=
  c.id = c'.id ∧ c.tenantId = c'.tenantId ∧ c.projectId = c'.projectId ∧ c.boardId = c'.boardId ∧
    c.columnId = c'.columnId

/-- What a program knows of the places before some writes it knows after them. -/
structure Persists (db db' : Db ι) : Prop where
  columns : ∀ id board tenant, HasColumn db id board tenant → HasColumn db' id board tenant
  boards : ∀ id project tenant, HasBoard db id project tenant → HasBoard db' id project tenant
  cards : ∀ c' ∈ db'.cards, ∃ c ∈ db.cards, SamePlace c c'

theorem Persists.refl (db : Db ι) : Persists db db :=
  ⟨fun _ _ _ h => h, fun _ _ _ h => h, fun c hc => ⟨c, hc, rfl, rfl, rfl, rfl, rfl⟩⟩

theorem Persists.trans (db db' db'' : Db ι) (h : Persists db db') (h' : Persists db' db'') :
    Persists db db'' where
  columns id board tenant hk := h'.columns _ _ _ (h.columns _ _ _ hk)
  boards id project tenant hb := h'.boards _ _ _ (h.boards _ _ _ hb)
  cards c'' hc'' := by
    obtain ⟨c', hc', h₁, h₂, h₃, h₄, h₅⟩ := h'.cards c'' hc''
    obtain ⟨c, hc, g₁, g₂, g₃, g₄, g₅⟩ := h.cards c' hc'
    exact ⟨c, hc, g₁.trans h₁, g₂.trans h₂, g₃.trans h₃, g₄.trans h₄, g₅.trans h₅⟩

/-- The card is in no other project. -/
def InProject (db : Db ι) (card project : ι) : Prop :=
  ∀ c ∈ db.cards, c.id = card → c.projectId = project

theorem Coherent.inProject {db : Db ι} (h : Coherent db) {c : CardRow ι} (hc : c ∈ db.cards) :
    InProject db c.id c.projectId := by
  intro c' hc' hid
  rw [List.inj_on_of_nodup_map h.cardKeys hc' hc hid]

theorem InProject.mono {db db' : Db ι} {card project : ι} (h : InProject db card project)
    (hdb : Persists db db') : InProject db' card project := by
  intro c' hc' hid
  obtain ⟨c, hc, hid₀, -, hproject, -⟩ := hdb.cards c' hc'
  exact hproject.symm.trans (h c hc (hid₀.trans hid))

theorem Placed.mono {db db' : Db ι} {c : CardRow ι} (h : Placed db c) (hdb : Persists db db') :
    Placed db' c := ⟨hdb.columns _ _ _ h.1, hdb.boards _ _ _ h.2⟩

theorem Placed.of_samePlace {db : Db ι} {c c' : CardRow ι} (h : Placed db c) (hs : SamePlace c c') :
    Placed db c' := by
  obtain ⟨-, htenant, hproject, hboard, hcolumn⟩ := hs
  unfold Placed
  rw [← htenant, ← hproject, ← hboard, ← hcolumn]
  exact h

end Coherent

/-! ## Writes that leave the places alone -/

/-- The write deletes no column and no board, and a row that it puts was there with the same
places. -/
def KeepsPlaces (db : Db ι) : Write (Rec ι) → Prop
  | .put (.card c') => ∃ c ∈ db.cards, SamePlace c c'
  | .put (.column k) => HasColumn db k.id k.boardId k.tenantId
  | .put (.board b) => HasBoard db b.id b.projectId b.tenantId
  | .del (.column _) => False
  | .del (.board _) => False
  | _ => True

section Writes

variable {db db' : Db ι} {a : Write (Rec ι)} {ws : List (Write (Rec ι))}

/-- A column that is put where no other row of it says otherwise. -/
theorem Coherent.putColumn {k : ColumnRow ι} (h : Coherent db)
    (hk : ∀ k' ∈ db.columns, k'.id = k.id → k'.boardId = k.boardId ∧ k'.tenantId = k.tenantId) :
    Coherent (db.apply (.put (.column k))) ∧ Persists db (db.apply (.put (.column k))) := by
  have hpersists : Persists db (db.apply (.put (.column k))) := by
    refine ⟨fun id board tenant hcol => ?_, fun _ _ _ h => h, (Persists.refl db).cards⟩
    refine Table.exists_mem_put hcol ?_
    rintro k' hk' hs ⟨rfl, rfl, rfl⟩
    have hid : k.id = k'.id := of_decide_eq_true hs
    obtain ⟨hboard, htenant⟩ := hk k' hk' hid.symm
    exact ⟨hid, hboard.symm, htenant.symm⟩
  refine ⟨⟨h.boardKeys, ?_, h.cardKeys, fun c hc => (h.placed c hc).mono hpersists⟩, hpersists⟩
  exact Table.nodup_put (fun k' => decide_eq_true_iff) h.columnKeys

theorem Coherent.putBoard {b : BoardRow ι} (h : Coherent db)
    (hb : ∀ b' ∈ db.boards, b'.id = b.id → b'.projectId = b.projectId ∧ b'.tenantId = b.tenantId) :
    Coherent (db.apply (.put (.board b))) ∧ Persists db (db.apply (.put (.board b))) := by
  have hpersists : Persists db (db.apply (.put (.board b))) := by
    refine ⟨fun _ _ _ h => h, fun id project tenant hboard => ?_, (Persists.refl db).cards⟩
    refine Table.exists_mem_put hboard ?_
    rintro b' hb' hs ⟨rfl, rfl, rfl⟩
    have hid : b.id = b'.id := of_decide_eq_true hs
    obtain ⟨hproject, htenant⟩ := hb b' hb' hid.symm
    exact ⟨hid, hproject.symm, htenant.symm⟩
  refine ⟨⟨?_, h.columnKeys, h.cardKeys, fun c hc => (h.placed c hc).mono hpersists⟩, hpersists⟩
  exact Table.nodup_put (fun b' => decide_eq_true_iff) h.boardKeys

/-- A card that is put in a place. -/
theorem Coherent.putCard {c : CardRow ι} (h : Coherent db) (hc : Placed db c) :
    Coherent (db.apply (.put (.card c))) := by
  refine ⟨h.boardKeys, h.columnKeys, ?_, fun c' hc' => ?_⟩
  · exact Table.nodup_put (fun c' => decide_eq_true_iff) h.cardKeys
  · rcases Table.mem_put hc' with rfl | ⟨hold, -⟩
    · exact hc
    · exact h.placed c' hold

/-- One write, after others that left the places alone. -/
theorem Coherent.apply {db₀ : Db ι} (h₀ : Coherent db₀) (h : Coherent db) (hp : Persists db₀ db)
    (ha : KeepsPlaces db₀ a) : Coherent (db.apply a) ∧ Persists db₀ (db.apply a) := by
  cases a with
  | put r =>
      cases r with
      | card c' =>
          obtain ⟨c, hc, hs⟩ := ha
          have hplaced : Placed db c' := ((h₀.placed c hc).of_samePlace hs).mono hp
          refine ⟨h.putCard hplaced, hp.columns, hp.boards, fun c₁ hc₁ => ?_⟩
          rcases Table.mem_put hc₁ with rfl | ⟨hold, -⟩
          · exact ⟨c, hc, hs⟩
          · exact hp.cards c₁ hold
      | column k =>
          obtain ⟨k₀, hk₀, hid, hboard, htenant⟩ := hp.columns _ _ _ ha
          have hput := h.putColumn (k := k) fun k' hk' hk => by
            rw [List.inj_on_of_nodup_map h.columnKeys hk' hk₀ (hk.trans hid.symm)]
            exact ⟨hboard, htenant⟩
          exact ⟨hput.1, hp.trans _ _ _ hput.2⟩
      | board b =>
          obtain ⟨b₀, hb₀, hid, hproject, htenant⟩ := hp.boards _ _ _ ha
          have hput := h.putBoard (b := b) fun b' hb' hb => by
            rw [List.inj_on_of_nodup_map h.boardKeys hb' hb₀ (hb.trans hid.symm)]
            exact ⟨hproject, htenant⟩
          exact ⟨hput.1, hp.trans _ _ _ hput.2⟩
      | _ => exact ⟨⟨h.boardKeys, h.columnKeys, h.cardKeys, h.placed⟩, hp.columns, hp.boards, hp.cards⟩
  | del r =>
      cases r with
      | card c =>
          refine ⟨⟨h.boardKeys, h.columnKeys, Table.nodup_del h.cardKeys, fun c' hc' => ?_⟩,
            hp.columns, hp.boards, fun c' hc' => ?_⟩
          · exact h.placed c' (Table.mem_del.mp hc').1
          · exact hp.cards c' (Table.mem_del.mp hc').1
      | column k => exact ha.elim
      | board b => exact ha.elim
      | _ => exact ⟨⟨h.boardKeys, h.columnKeys, h.cardKeys, h.placed⟩, hp.columns, hp.boards, hp.cards⟩

/-- **Writes that leave the places alone.** -/
theorem Coherent.applyAll (h : Coherent db) (hws : ∀ a ∈ ws, KeepsPlaces db a) :
    Coherent ((kanban ι).applyAll db ws) ∧ Persists db ((kanban ι).applyAll db ws) := by
  have key : ∀ db', Coherent db' → Persists db db' → Coherent ((kanban ι).applyAll db' ws) ∧
      Persists db ((kanban ι).applyAll db' ws) := by
    induction ws with
    | nil => exact fun db' h' hp => ⟨h', hp⟩
    | cons a ws ih =>
        intro db' h' hp
        obtain ⟨h'', hp'⟩ := h.apply h' hp (hws a List.mem_cons_self)
        exact ih (fun b hb => hws b (List.mem_cons_of_mem _ hb)) _ h'' hp'
  exact key db h (.refl db)

/-- Cards that are put in a place. -/
theorem Coherent.putCards (h : Coherent db) (hws : ∀ a ∈ ws, ∃ c, a = .put (.card c) ∧ Placed db c) :
    Coherent ((kanban ι).applyAll db ws) := by
  induction ws generalizing db with
  | nil => exact h
  | cons a ws ih =>
      obtain ⟨c, rfl, hc⟩ := hws a List.mem_cons_self
      refine ih (h.putCard hc) fun b hb => ?_
      obtain ⟨c', rfl, hc'⟩ := hws b (List.mem_cons_of_mem _ hb)
      exact ⟨c', rfl, hc'⟩

/-- Columns without cards are deleted. -/
theorem Coherent.delColumns (ks : List (ColumnRow ι)) (h : Coherent db)
    (hks : ∀ k ∈ ks, ∀ c ∈ db.cards, c.columnId ≠ k.id) :
    Coherent ((kanban ι).applyAll db (ks.map fun k => .del (.column k))) ∧
      ((kanban ι).applyAll db (ks.map fun k => .del (.column k))).cards = db.cards := by
  induction ks generalizing db with
  | nil => exact ⟨h, rfl⟩
  | cons k ks ih =>
      have hdel : Coherent (db.apply (.del (.column k))) := by
        refine ⟨h.boardKeys, Table.nodup_del h.columnKeys, h.cardKeys, fun c hc => ?_⟩
        obtain ⟨⟨k', hk', hid, hrest⟩, hboard⟩ := h.placed c hc
        refine ⟨⟨k', Table.mem_del.mpr ⟨hk', ?_⟩, hid, hrest⟩, hboard⟩
        have hne : k.id ≠ k'.id := fun heq => hks k List.mem_cons_self c hc (hid.symm.trans heq.symm)
        simpa using hne
      exact ih hdel fun k' hk' => hks k' (List.mem_cons_of_mem _ hk')

/-- Boards without cards are deleted. -/
theorem Coherent.delBoards {bs : List (BoardRow ι)} (h : Coherent db)
    (hbs : ∀ b ∈ bs, ∀ c ∈ db.cards, c.boardId ≠ b.id) :
    Coherent ((kanban ι).applyAll db (bs.map fun b => .del (.board b))) := by
  induction bs generalizing db with
  | nil => exact h
  | cons b bs ih =>
      have hdel : Coherent (db.apply (.del (.board b))) := by
        refine ⟨Table.nodup_del h.boardKeys, h.columnKeys, h.cardKeys, fun c hc => ?_⟩
        obtain ⟨hcolumn, b', hb', hid, hrest⟩ := h.placed c hc
        refine ⟨hcolumn, b', Table.mem_del.mpr ⟨hb', ?_⟩, hid, hrest⟩
        have hne : b.id ≠ b'.id := fun heq => hbs b List.mem_cons_self c hc (hid.symm.trans heq.symm)
        simpa using hne
      exact ih hdel fun b' hb' => hbs b' (List.mem_cons_of_mem _ hb')

/-- A card that is still there after deletions was not deleted. -/
theorem mem_cards_of_dels {rs : List (Rec ι)} {c : CardRow ι}
    (hc : c ∈ ((kanban ι).applyAll db (rs.map .del)).cards) : c ∈ db.cards ∧ .card c ∉ rs := by
  induction rs generalizing db with
  | nil => exact ⟨hc, List.not_mem_nil⟩
  | cons r rs ih =>
      obtain ⟨hmem, hrs⟩ := ih hc
      cases r with
      | card c' =>
          obtain ⟨hold, hs⟩ := Table.mem_del.mp hmem
          refine ⟨hold, fun hin => ?_⟩
          rcases List.mem_cons.mp hin with heq | hin
          · cases heq
            simp at hs
          · exact hrs hin
      | _ =>
          refine ⟨hmem, fun hin => ?_⟩
          rcases List.mem_cons.mp hin with heq | hin
          · cases heq
          · exact hrs hin

end Writes

/-! ## Programs that leave the places alone -/

/-- The program stays at its scope, and its writes leave the places alone. -/
def Steady (p : Handler ι α) : Prop := ∀ m v, Along (kanban ι) Coherent p m v fun _ m' v' =>
  m' = m ∧ Persists v v'

section Rules

variable {m : Scope} {v : Db ι} {Q : α → Scope → Db ι → Prop}

/-- A program that is steady, and what comes after it. -/
theorem Steady.bind_along {p : Handler ι β} {f : β → Handler ι α} (hp : Steady p)
    (hf : ∀ b v', Persists v v' → Along (kanban ι) Coherent (f b) m v' Q) :
    Along (kanban ι) Coherent (p.bind f) m v Q :=
  along_bind ((hp m v).mono fun b m' v' h => by
    obtain ⟨rfl, hv⟩ := h
    exact hf b v' hv)

/-- Two ways to the same rest. -/
theorem Steady.fork_along {c : Prop} [Decidable c] {p q : Handler ι β} {f : β → Handler ι α}
    (hp : Steady p) (hq : Steady q)
    (hf : ∀ b v', Persists v v' → Along (kanban ι) Coherent (f b) m v' Q) :
    Along (kanban ι) Coherent (if c then p.bind f else q.bind f) m v Q := by
  split
  · exact hp.bind_along hf
  · exact hq.bind_along hf

theorem along_ite {c : Prop} [Decidable c] {p q : Handler ι α} (hp : Along (kanban ι) Coherent p m v Q)
    (hq : Along (kanban ι) Coherent q m v Q) :
    Along (kanban ι) Coherent (if c then p else q) m v Q := by
  split
  · exact hp
  · exact hq

theorem along_orError_bind {o : Option β} {e : ConnectError} {f : β → Handler ι α}
    (h : ∀ b, o = some b → Along (kanban ι) Coherent (f b) m v Q) :
    Along (kanban ι) Coherent ((orError e o).bind f) m v Q := by
  cases o with
  | none => exact along_fail
  | some b => exact h b rfl

theorem along_ensure_bind {p : Prop} [Decidable p] {e : ConnectError} {f : Unit → Handler ι α}
    (h : p → Along (kanban ι) Coherent (f ()) m v Q) :
    Along (kanban ι) Coherent ((ensure p e).bind f) m v Q := by
  unfold ensure
  split
  · exact h ‹p›
  · exact along_fail

theorem along_query_bind {msg : String} {s : Stmt (Db ι) (Rec ι) β} {f : β → Handler ι α}
    (h : Coherent v → ∀ e, s v = some e → Coherent ((kanban ι).applyAll v e.writes) ∧
      Along (kanban ι) Coherent (f e.answer) m ((kanban ι).applyAll v e.writes) Q) :
    Along (kanban ι) Coherent ((query msg s).bind f) m v Q :=
  along_stmt h along_fail

/-- The first row of a `SELECT` is there. -/
theorem along_fetchOr_bind {msg : String} {err : ConnectError} {T : Table (Db ι) (Rec ι) τ}
    {p : τ → Bool} {f : τ → Handler ι α}
    (h : Coherent v → ∀ r ∈ T.rows v, p r → Along (kanban ι) Coherent (f r) m v Q) :
    Along (kanban ι) Coherent ((fetchOr msg err (T.select p)).bind f) m v Q := by
  refine along_bind (along_bind (along_bind (along_stmt (fun hv e he => ?_) along_fail)))
  cases he
  refine ⟨hv, along_pure (along_pure ?_)⟩
  cases hrow : ((T.rows v).filter p).head? with
  | none => exact along_fail
  | some r =>
      have hmem := List.mem_filter.mp (List.mem_of_mem_head? hrow)
      exact along_pure (h hv r hmem.1 hmem.2)

theorem along_beginTx_bind {msg : String} {f : Unit → Handler ι α}
    (h : Along (kanban ι) Coherent (f ()) .inside v Q) :
    Along (kanban ι) Coherent ((beginTx msg).bind f) .outside v Q := along_begin h along_fail

/-- After the commit nothing is known but the invariant. -/
theorem along_commitTx_bind {msg : String} {f : Unit → Handler ι α}
    (h : ∀ v', Along (kanban ι) Coherent (f ()) .outside v' Q) :
    Along (kanban ι) Coherent ((commitTx msg).bind f) .inside v Q := by
  refine along_commit fun b v' _ => ?_
  cases b with
  | true => exact h v'
  | false => exact along_fail

end Rules

/-- What refers to a card can be deleted. -/
theorem keepsPlaces_del_child {db db' : Db ι} {cardId : ι} {r : Rec ι}
    (h : r ∈ cardChildren db cardId) : KeepsPlaces db' (.del r) := by
  simp only [cardChildren, List.mem_append, List.mem_map] at h
  rcases h with ((((⟨r, -, rfl⟩ | ⟨r, -, rfl⟩) | ⟨r, -, rfl⟩) | ⟨r, -, rfl⟩) | ⟨r, -, rfl⟩) |
    ⟨r, -, rfl⟩ <;> trivial

namespace Steady

theorem pure (a : α) : Steady (.pure a : Handler ι α) := fun _ _ => along_pure ⟨rfl, .refl _⟩

theorem bind {p : Handler ι α} {f : α → Handler ι β} (hp : Steady p) (hf : ∀ a, Steady (f a)) :
    Steady (p.bind f) := fun m _ =>
  hp.bind_along fun a v' hv => (hf a m v').mono fun _ _ _ h => ⟨h.1, hv.trans _ _ _ h.2⟩

theorem ite {c : Prop} [Decidable c] {p q : Handler ι α} (hp : Steady p) (hq : Steady q) :
    Steady (if c then p else q) := by
  split
  · exact hp
  · exact hq

/-- A program that writes keys at most. -/
theorem of_tame {p : Handler ι α} (h : Tame p) : Steady p := fun _ _ =>
  Along.of_only Persists.refl Persists.trans (fun _ _ hv hws => hv.applyAll fun a ha => by
    obtain ⟨r, rfl⟩ := hws a ha
    trivial) h

/-- The last thing that a call does. -/
theorem last {p : Handler ι α} (h : Steady p) (v : Db ι) :
    Along (kanban ι) Coherent p .outside v fun _ _ _ => True := (h _ v).mono fun _ _ _ _ => trivial

/-- A statement whose writes leave the places alone. -/
theorem attempt {s : Stmt (Db ι) (Rec ι) β}
    (hs : ∀ v e, s v = some e → ∀ a ∈ e.writes, KeepsPlaces v a) : Steady (attempt s) := fun _ v =>
  along_stmt (fun hv e he =>
    have h := hv.applyAll (hs v e he)
    ⟨h.1, along_pure ⟨rfl, h.2⟩⟩) (along_pure ⟨rfl, .refl v⟩)

theorem query {msg : String} {s : Stmt (Db ι) (Rec ι) β}
    (hs : ∀ v e, s v = some e → ∀ a ∈ e.writes, KeepsPlaces v a) : Steady (query msg s) := fun _ v =>
  along_stmt (fun hv e he =>
    have h := hv.applyAll (hs v e he)
    ⟨h.1, along_pure ⟨rfl, h.2⟩⟩) along_fail

/-- A statement on a table that holds no places. -/
theorem query_of_within {msg : String} {T : Table (Db ι) (Rec ι) τ} {s : Stmt (Db ι) (Rec ι) β}
    (hT : ∀ v r, KeepsPlaces v (.put (T.record r)) ∧ KeepsPlaces v (.del (T.record r)))
    (hs : ∀ v e, s v = some e → ∀ a ∈ e.writes, ∃ r, a = .put (T.record r) ∨ a = .del (T.record r)) :
    Steady (Rpc.query msg s) := by
  refine query fun v e he a ha => ?_
  obtain ⟨r, rfl | rfl⟩ := hs v e he a ha
  · exact (hT v r).1
  · exact (hT v r).2

theorem fetchOne {msg : String} {s : Stmt (Db ι) (Rec ι) (List τ)} (hs : Steady (Rpc.query msg s)) :
    Steady (fetchOne msg s) := bind hs fun _ => of_tame .orError

theorem insertRow {tenantId : String} {boardId aggregatedBoardId projectId : Option ι}
    {eventType : String} {payload : Payload} :
    Steady (insertRow tenantId boardId aggregatedBoardId projectId eventType payload) :=
  bind (of_tame .newId) fun _ => bind (query_of_within (T := Db.eventLogT) (fun _ _ => ⟨trivial, trivial⟩)
    Table.within_insert) fun _ => of_tame (.query fun db e he => by cases he; rfl)

theorem insertProjectEvent {tenantId : String} {projectId : ι} {eventType : String}
    {payload : Payload} : Steady (insertProjectEvent tenantId projectId eventType payload) := insertRow

theorem insertBoardEvent {tenantId : String} {boardId : ι} {eventType : String}
    {payload : Payload} : Steady (insertBoardEvent tenantId boardId eventType payload) := by
  refine bind (fetchOne (query fun v e he => ?_)) fun _ => insertRow
  exact Table.forall_writes_update he fun b hb _ => ⟨b, hb, rfl, rfl, rfl⟩

theorem shiftCards {msg tenantId : String} {columnId : ι} {p : ℤ → Bool} {delta : ℤ} :
    Steady (Rpc.query msg (shiftCards tenantId columnId p delta)) := by
  refine query fun _ e he => Table.forall_writes_updateChecked he fun c hc _ c' hc' => ?_
  obtain ⟨n, -, rfl⟩ := Option.map_eq_some_iff.mp hc'
  exact ⟨c, hc, rfl, rfl, rfl, rfl, rfl⟩

theorem allocateCardRef {tenantId : String} {projectId : ι} :
    Steady (allocateCardRef tenantId projectId) := by
  refine bind (of_tame (.query fun db e he => by cases he; rfl)) fun _ => bind (fetchOne (query
    fun v e he a ha => ?_)) fun _ => pure _
  unfold nextCardRef at he
  split at he
  · cases he
    cases ha
  · obtain ⟨e', he', rfl⟩ := Option.map_eq_some_iff.mp he
    obtain ⟨r, rfl | rfl⟩ := Table.within_upsert v e' he' a ha
    · trivial
    · trivial

theorem insertPosition {tenantId : String} {columnId : ι} {position : ℤ} :
    Steady (insertPosition tenantId columnId position) := by
  refine ite (bind (attempt fun v e he a ha => ?_) fun _ => pure _) (bind shiftCards fun _ => pure _)
  obtain ⟨n, -, rfl⟩ := Option.map_eq_some_iff.mp he
  cases ha

theorem shiftForMove {tenantId : String} {card : CardRow ι} {toColId : ι} {toPos : ℤ} :
    Steady (shiftForMove tenantId card toColId toPos) :=
  ite (ite (pure _) (ite (bind shiftCards fun _ => pure _) (bind shiftCards fun _ => pure _)))
    (bind shiftCards fun _ => bind shiftCards fun _ => pure _)

theorem deleteCardRow {msg tenantId : String} {cardId : ι} :
    Steady (Rpc.query msg (deleteCardRow tenantId cardId)) := by
  refine query fun v e he a ha => ?_
  obtain rfl := deleteCardRow_some he
  rcases List.mem_append.mp ha with ha | ha
  · obtain ⟨c, -, rfl⟩ := List.mem_map.mp ha
    trivial
  · obtain ⟨r, hr, rfl⟩ := List.mem_map.mp ha
    split at hr
    · cases hr
    · exact keepsPlaces_del_child hr

end Steady

/-! ## The handlers -/

section Handlers

variable {codec : IdCodec ι} {unicode : Unicode} {pages : ℕ} {ctx : RequestContext} {v : Db ι}

/-- The transaction of a new card on a board that the call has read. -/
theorem along_insertNewCard {subject tenantId : String} {board : BoardRow ι} {column : ColumnRow ι}
    {req : CreateCardRequest} (hk : HasColumn v column.id board.id tenantId)
    (hb : HasBoard v board.id board.projectId tenantId) :
    Along (kanban ι) Coherent (insertNewCard codec ctx subject tenantId board column req) .outside v
      fun _ m _ => m = .outside := by
  refine along_beginTx_bind (Steady.allocateCardRef.bind_along fun cardRef v₁ h₁ => ?_)
  refine (Steady.of_tame .newId).bind_along fun cardId v₂ h₂ => ?_
  refine Steady.insertPosition.bind_along fun position v₃ h₃ => ?_
  refine (Steady.of_tame .checkMilestone).bind_along fun milestoneId v₄ h₄ => ?_
  have hpersists : Persists v v₄ :=
    ((h₁.trans _ _ _ h₂).trans _ _ _ h₃).trans _ _ _ h₄
  refine along_query_bind fun hv e he => ?_
  have hw : e.writes = [.put (.card (newCardRow ctx subject tenantId board column req cardId cardRef
      position milestoneId))] := by
    unfold insertCard at he
    split at he
    · cases he
    · exact Table.writes_insert he
  rw [hw]
  refine ⟨hv.putCard ⟨hpersists.columns _ _ _ hk, hpersists.boards _ _ _ hb⟩, ?_⟩
  exact Steady.insertBoardEvent.bind_along fun _ _ _ => along_commitTx_bind fun _ => along_pure rfl

theorem along_createCard {req : CreateCardRequest} :
    Along (kanban ι) Coherent (createCard codec ctx req) .outside v fun _ _ _ => True := by
  refine along_orError_bind fun objectId _ => along_orError_bind fun boardId _ =>
    along_orError_bind fun subject _ => along_orError_bind fun tenantId _ =>
    along_ensure_bind fun _ => (Steady.of_tame .checkIdempotencyCard).bind_along fun found v₁ _ => ?_
  cases found with
  | some existingId => exact (Steady.of_tame .fetchFullCard).last v₁
  | none =>
      refine along_fetchOr_bind fun _ board hboard hb => along_orError_bind fun colId _ =>
        along_fetchOr_bind fun _ column hcolumn hk => ?_
      obtain ⟨rfl, hbt⟩ : board.id = boardId ∧ board.tenantId = tenantId := by simpa using hb
      obtain ⟨-, hkb, hkt⟩ : column.id = colId ∧ column.boardId = board.id ∧
        column.tenantId = tenantId := by simpa using hk
      refine along_bind ((along_insertNewCard ⟨column, hcolumn, rfl, hkb, hkt⟩
        ⟨board, hboard, rfl, rfl, hbt⟩).mono fun cardId m v₂ hm => ?_)
      subst hm
      exact (Steady.of_tame (.bind .tenantClientFor fun _ => .bind .grantWithRetry fun _ =>
        .bind .storeIdempotencyId fun _ => .fetchFullCard)).last v₂

/-- A card that the call has read is put in a place that it has read. -/
theorem along_updateCardRow_bind {msg tenantId : String} {cardId : ι} {f : CardRow ι → CardRow ι}
    {g : CardRow ι → Handler ι α} {m : Scope} {Q : α → Scope → Db ι → Prop}
    (hf : ∀ c ∈ v.cards, c.id = cardId → c.tenantId = tenantId → Placed v (f c))
    (h : ∀ row v', Along (kanban ι) Coherent (g row) m v' Q) :
    Along (kanban ι) Coherent ((fetchOne msg (updateCardRow tenantId cardId f)).bind g) m v Q := by
  refine along_bind (along_bind (along_stmt (fun hv e he => ⟨hv.putCards ?_, ?_⟩) along_fail))
  · refine Table.forall_writes_update he fun c hc hp => ⟨f c, rfl, ?_⟩
    have hp : c.id = cardId ∧ c.tenantId = tenantId := by simpa using hp
    exact hf c hc hp.1 hp.2
  · refine along_pure ?_
    cases e.answer.head? with
    | none => exact along_fail
    | some row => exact along_pure (h row _)

/-- The transaction of a move to a column on a board of the card's project. -/
theorem along_placeCard {tenantId : String} {card : CardRow ι} {target : ColumnRow ι}
    {fromIsDone : Bool} {req : MoveCardRequest} (hcard : InProject v card.id card.projectId)
    (hk : HasColumn v target.id target.boardId tenantId)
    (hb : HasBoard v target.boardId card.projectId tenantId) :
    Along (kanban ι) Coherent (placeCard codec ctx tenantId card target fromIsDone req) .outside v
      fun _ m _ => m = .outside := by
  refine along_beginTx_bind (Steady.shiftForMove.bind_along fun _ v₁ h₁ =>
    along_updateCardRow_bind (fun c hc hid htenant => ?_) fun row v₂ => ?_)
  · have hproject : c.projectId = card.projectId := hcard.mono h₁ c hc hid
    unfold Placed
    dsimp only
    rw [htenant, hproject]
    exact ⟨h₁.columns _ _ _ hk, h₁.boards _ _ _ hb⟩
  · refine Steady.insertBoardEvent.bind_along fun _ _ _ => along_commit fun b _ _ => ?_
    cases b with
    | true => exact along_pure rfl
    | false => exact along_fail

theorem along_moveCard {req : MoveCardRequest} :
    Along (kanban ι) Coherent (moveCard codec pages ctx req) .outside v fun _ _ _ => True := by
  refine along_orError_bind fun objectId _ => along_orError_bind fun cardId _ =>
    along_orError_bind fun tenantId _ => along_orError_bind fun toColId _ =>
    (Steady.of_tame .checkIdempotencyCard).bind_along fun found v₁ _ => ?_
  cases found with
  | some existingId => exact (Steady.of_tame .fetchFullCard).last v₁
  | none =>
      refine along_fetchOr_bind fun hv₁ card hcard hc => along_fetchOr_bind fun _ target htarget ht => ?_
      have htarget' : HasColumn v₁ target.id target.boardId tenantId := by
        have ht : target.id = toColId ∧ target.tenantId = tenantId := by simpa using ht
        exact ⟨target, htarget, rfl, rfl, ht.2⟩
      refine Steady.fork_along (.pure _) (.of_tame .sourceIsDone) fun fromIsDone v₂ h₂ => ?_
      refine along_fetchOr_bind fun _ board hboard hb => along_ensure_bind fun hproject => ?_
      have hboard' : HasBoard v₂ target.boardId card.projectId tenantId := by
        have hb : board.id = target.boardId ∧ board.tenantId = tenantId := by simpa using hb
        exact ⟨board, hboard, hb.1, hproject.symm, hb.2⟩
      refine along_bind ((along_placeCard ((hv₁.inProject hcard).mono h₂)
        (h₂.columns _ _ _ htarget') hboard').mono fun _ m v₃ hm => ?_)
      subst hm
      exact (Steady.of_tame (.ite (.bind .tenantClientFor fun _ => .bind .rehomeParent fun _ =>
        .bind .storeIdempotencyId fun _ => .fetchFullCard)
        (.bind .storeIdempotencyId fun _ => .fetchFullCard))).last v₃

/-- The transaction of a transfer to a board of the target project. -/
theorem along_relocateCard {tenantId key : String} {card : CardRow ι} {target : ColumnRow ι}
    {targetProjectId : ι} {fromIsDone : Bool}
    (hk : HasColumn v target.id target.boardId tenantId)
    (hb : HasBoard v target.boardId targetProjectId tenantId) :
    Along (kanban ι) Coherent (relocateCard codec ctx tenantId card targetProjectId target fromIsDone
      key) .outside v fun _ m _ => m = .outside := by
  refine along_beginTx_bind (Steady.allocateCardRef.bind_along fun newRef v₁ h₁ => ?_)
  refine (Steady.query fun v e he a ha => ?_).bind_along fun toPos v₂ h₂ => ?_
  · obtain ⟨n, -, rfl⟩ := Option.map_eq_some_iff.mp he
    cases ha
  have hpersists : Persists v v₂ := h₁.trans _ _ _ h₂
  refine along_updateCardRow_bind (fun c hc hid htenant => ?_) fun row v₃ => ?_
  · unfold Placed
    dsimp only
    rw [htenant]
    exact ⟨hpersists.columns _ _ _ hk, hpersists.boards _ _ _ hb⟩
  · refine (Steady.query_of_within (T := Db.cardLabelsT) (fun _ _ => ⟨trivial, trivial⟩)
      fun db => Table.within_delete db).bind_along fun _ _ _ => ?_
    refine Steady.insertBoardEvent.bind_along fun _ _ _ => Steady.insertBoardEvent.bind_along
      fun _ _ _ => along_commit fun b _ _ => ?_
    cases b with
    | true => exact along_pure rfl
    | false => exact along_fail

theorem along_transferCard {req : TransferCardRequest} :
    Along (kanban ι) Coherent (transferCard codec pages ctx req) .outside v fun _ _ _ => True := by
  refine along_orError_bind fun objectId _ => along_orError_bind fun cardId _ =>
    along_orError_bind fun tenantId _ => along_orError_bind fun targetBoardId _ =>
    along_orError_bind fun targetColId _ =>
    (Steady.of_tame .checkIdempotencyCard).bind_along fun found v₁ _ => ?_
  cases found with
  | some existingId => exact (Steady.of_tame .replayTransfer).last v₁
  | none =>
      refine along_fetchOr_bind fun _ card _ _ => along_fetchOr_bind fun _ board hboard hb =>
        along_ensure_bind fun _ => ?_
      refine (Steady.of_tame .checkTargetBoard).bind_along fun permission v₂ h₂ => ?_
      refine along_fetchOr_bind fun _ target htarget ht => along_ensure_bind fun hon => ?_
      refine (Steady.of_tame .sourceIsDone).bind_along fun fromIsDone v₃ h₃ => ?_
      have hboard' : HasBoard v₁ target.boardId board.projectId tenantId := by
        have hb : board.id = targetBoardId ∧ board.tenantId = tenantId := by simpa using hb
        exact ⟨board, hboard, hb.1.trans hon.symm, rfl, hb.2⟩
      have htarget' : HasColumn v₂ target.id target.boardId tenantId := by
        have ht : target.id = targetColId ∧ target.tenantId = tenantId := by simpa using ht
        exact ⟨target, htarget, rfl, rfl, ht.2⟩
      refine along_bind ((along_relocateCard (h₃.columns _ _ _ htarget')
        ((h₂.trans _ _ _ h₃).boards _ _ _ hboard')).mono fun _ m v₄ hm => ?_)
      subst hm
      exact (Steady.of_tame (.bind .rehomeParent fun _ => .bind .storeIdempotencyId fun _ =>
        .bind .fetchFullCard fun _ => .pure _)).last v₄

theorem along_deleteCard :
    Along (kanban ι) Coherent (deleteCard codec pages ctx) .outside v fun _ _ _ => True := by
  refine along_orError_bind fun objectId _ => along_orError_bind fun cardId _ =>
    along_orError_bind fun tenantId _ => along_fetchOr_bind fun _ cur _ _ =>
    along_beginTx_bind (Steady.deleteCardRow.bind_along fun deleted _ _ => along_ensure_bind
    fun _ => Steady.insertBoardEvent.bind_along fun _ _ _ => along_commitTx_bind fun v₁ => ?_)
  exact (Steady.of_tame (.bind .tenantClientFor fun _ => .bind .deleteRelationTuples fun _ =>
    .pure _)).last v₁

theorem Tame.cachedBoard {tenantId key : String} :
    Tame (cachedBoard tenantId key : Handler ι (Option (BoardRow ι))) := by
  refine .ite (.pure none) (.bind (.fetchOptional silent_select) fun cached => ?_)
  cases cached.bind IdempotencyRow.responseCardId with
  | none => exact .pure none
  | some boardId => exact .fetchOptional silent_select

theorem Tame.cachedColumn {tenantId key : String} :
    Tame (cachedColumn tenantId key : Handler ι (Option (ColumnRow ι))) := by
  refine .ite (.pure none) (.bind (.fetchOptional silent_select) fun cached => ?_)
  cases cached.bind IdempotencyRow.responseCardId with
  | none => exact .pure none
  | some columnId => exact .fetchOptional silent_select

/-- A new board has a new id. -/
theorem Coherent.insertBoard {row : BoardRow ι} {e : Effect (Rec ι) Unit} (hv : Coherent v)
    (he : insertBoard row v = some e) : Coherent ((kanban ι).applyAll v e.writes) := by
  unfold Rpc.insertBoard at he
  split at he
  · cases he
  · rw [Table.insert] at he
    split at he
    · cases he
    · rename_i hnew
      cases he
      refine (hv.putBoard fun b hb hid => absurd ?_ hnew).1
      exact List.any_eq_true.mpr ⟨b, hb, by simp [hid]⟩

theorem along_createBoard {req : CreateBoardRequest} :
    Along (kanban ι) Coherent (createBoard codec unicode ctx req) .outside v fun _ _ _ => True := by
  refine along_orError_bind fun objectId _ => along_orError_bind fun projectId _ =>
    (Steady.of_tame .tenantClientFor).bind_along fun permission v₁ _ => along_orError_bind
    fun tenantId _ => (Steady.of_tame .cachedBoard).bind_along fun found v₂ _ => ?_
  cases found with
  | some row =>
      exact (Steady.of_tame (.bind (.bind (.fetchAll silent_select) fun _ => .pure _) fun _ =>
        .bind (.bind (.fetchAll silent_select) fun _ => .pure _) fun _ => .pure _)).last v₂
  | none =>
      refine along_ensure_bind fun _ => (Steady.of_tame .newId).bind_along fun boardId v₃ _ => ?_
      refine along_bind (along_beginTx_bind (along_query_bind fun hv e he => ⟨hv.insertBoard he, ?_⟩))
      refine Steady.insertProjectEvent.bind_along fun _ _ _ => along_commit fun b v₄ _ => ?_
      cases b with
      | false => exact along_fail
      | true =>
          exact along_pure ((Steady.of_tame (.bind .grantWithRetry fun _ =>
            .bind .storeIdempotencyId fun _ => .pure _)).last v₄)

/-- Cards that are deleted with what refers to them. -/
theorem Coherent.delCards (cards : List (CardRow ι)) (hv : Coherent v) :
    Coherent ((kanban ι).applyAll v ((withChildren v cards).map .del)) ∧
      ∀ c ∈ ((kanban ι).applyAll v ((withChildren v cards).map .del)).cards, c ∈ v.cards ∧ c ∉ cards := by
  refine ⟨(hv.applyAll fun a ha => ?_).1, fun c hc => ?_⟩
  · obtain ⟨r, hr, rfl⟩ := List.mem_map.mp ha
    obtain ⟨c, -, hr⟩ := List.mem_flatMap.mp hr
    rcases List.mem_cons.mp hr with rfl | hr
    · trivial
    · exact keepsPlaces_del_child hr
  · obtain ⟨hold, hnot⟩ := mem_cards_of_dels hc
    refine ⟨hold, fun hin => hnot ?_⟩
    exact List.mem_flatMap.mpr ⟨c, hin, List.mem_cons_self⟩

/-- A column is deleted with its cards. -/
theorem Coherent.deleteColumn {tenantId : String} {columnId boardId : ι}
    {e : Effect (Rec ι) (List (ColumnRow ι))} (hv : Coherent v)
    (he : deleteColumnRow tenantId columnId boardId v = some e) :
    Coherent ((kanban ι).applyAll v e.writes) := by
  obtain rfl := deleteColumnRow_some he
  dsimp only
  split
  · rename_i hnil
    rw [hnil]
    exact hv
  · obtain ⟨hv₁, hgone⟩ := hv.delCards (v.cards.filter (·.columnId = columnId))
    rw [Semantics.applyAll_append]
    refine (hv₁.delColumns _ fun k hk c hc hcol => ?_).1
    have hk' : k.tenantId = tenantId ∧ k.id = columnId ∧ k.boardId = boardId := by
      simpa [columnOnBoard] using (List.mem_filter.mp hk).2
    obtain ⟨hold, hnot⟩ := hgone c hc
    exact hnot (List.mem_filter.mpr ⟨hold, by simp [hcol, hk'.2.1]⟩)

/-- A board is deleted with its columns and its cards. -/
theorem Coherent.deleteBoard {tenantId : String} {boardId : ι}
    {e : Effect (Rec ι) (List (BoardRow ι))} (hv : Coherent v)
    (he : deleteBoardRow tenantId boardId v = some e) :
    Coherent ((kanban ι).applyAll v e.writes) := by
  obtain rfl := deleteBoardRow_some he
  dsimp only
  split
  · rename_i hnil
    rw [hnil]
    exact hv
  · obtain ⟨hv₁, hgone⟩ := hv.delCards (v.cards.filter fun c => c.boardId = boardId ∨
      c.columnId ∈ (v.columns.filter (·.boardId = boardId)).map ColumnRow.id)
    simp only [List.map_append, Semantics.applyAll_append]
    have hcolumns := hv₁.delColumns (v.columns.filter (·.boardId = boardId))
      fun k hk c hc hcol => by
        obtain ⟨hold, hnot⟩ := hgone c hc
        refine hnot (List.mem_filter.mpr ⟨hold, ?_⟩)
        exact decide_eq_true (.inr (hcol ▸ List.mem_map_of_mem hk))
    obtain ⟨hv₂, hcards⟩ := hcolumns
    simp only [List.map_map, Function.comp_def]
    have hevents := (@Coherent.applyAll _ _ _ ((v.eventLog.filter (·.boardId = some boardId)).map
      fun r => .del (.event r)) hv₂ fun a ha => by
        obtain ⟨r, -, rfl⟩ := List.mem_map.mp ha
        trivial)
    have hsources := (@Coherent.applyAll _ _ _ ((v.aggregatedBoardSources.filter
      (·.boardId = boardId)).map fun r => .del (.source r)) hevents.1 fun a ha => by
        obtain ⟨r, -, rfl⟩ := List.mem_map.mp ha
        trivial)
    refine hsources.1.delBoards fun b hb c hc hboard => ?_
    have hb' : b.id = boardId ∧ b.tenantId = tenantId := by simpa using (List.mem_filter.mp hb).2
    obtain ⟨c₁, hc₁, -, -, -, hsame, -⟩ := (hevents.2.trans _ _ _ hsources.2).cards c hc
    rw [hcards] at hc₁
    obtain ⟨hold, hnot⟩ := hgone c₁ hc₁
    refine hnot (List.mem_filter.mpr ⟨hold, decide_eq_true (.inl ?_)⟩)
    exact hsame.trans (hboard.trans hb'.1)

theorem along_deleteBoard :
    Along (kanban ι) Coherent (deleteBoard codec ctx) .outside v fun _ _ _ => True := by
  refine along_orError_bind fun tenantId _ => along_orError_bind fun objectId _ =>
    along_orError_bind fun boardId _ => along_beginTx_bind (along_fetchOr_bind fun _ board _ _ =>
    Steady.insertProjectEvent.bind_along fun _ v₁ _ => ?_)
  refine along_query_bind fun hv e he => ⟨hv.deleteBoard he, along_ensure_bind fun _ => ?_⟩
  refine along_commit fun b _ _ => ?_
  cases b with
  | true => exact along_pure trivial
  | false => exact along_fail

/-- A new column has a new id. -/
theorem Coherent.insertColumn {row : ColumnRow ι} {e : Effect (Rec ι) (ColumnRow ι)}
    (hv : Coherent v) (he : insertColumn row v = some e) :
    Coherent ((kanban ι).applyAll v e.writes) ∧ Persists v ((kanban ι).applyAll v e.writes) := by
  unfold Rpc.insertColumn at he
  split at he
  · obtain ⟨e', he', rfl⟩ := Option.map_eq_some_iff.mp he
    rw [Table.insert] at he'
    split at he'
    · cases he'
    · rename_i hnew
      cases he'
      refine hv.putColumn fun k hk hid => absurd ?_ hnew
      exact List.any_eq_true.mpr ⟨k, hk, by simp [hid]⟩
  · cases he

theorem Coherent.insertColumnAt {row : ColumnRow ι} {e : Effect (Rec ι) (ColumnRow ι)}
    (hv : Coherent v) (he : insertColumnAt row v = some e) :
    Coherent ((kanban ι).applyAll v e.writes) := by
  obtain ⟨shift, hshift, he⟩ := Option.bind_eq_some_iff.mp he
  obtain ⟨e', he', rfl⟩ := Option.map_eq_some_iff.mp he
  obtain ⟨hv', hpersists⟩ := hv.insertColumn he'
  rw [Semantics.applyAll_append]
  refine (hv'.applyAll (Table.forall_writes_updateChecked hshift fun k hk _ k' hk' => ?_)).1
  obtain ⟨n, -, rfl⟩ := Option.map_eq_some_iff.mp hk'
  exact hpersists.columns _ _ _ ⟨k, hk, rfl, rfl, rfl⟩

theorem along_addColumn {req : AddColumnRequest} :
    Along (kanban ι) Coherent (addColumn codec ctx req) .outside v fun _ _ _ => True := by
  refine along_orError_bind fun objectId _ => along_orError_bind fun boardId _ =>
    along_orError_bind fun tenantId _ => along_ensure_bind fun _ =>
    (Steady.of_tame .cachedColumn).bind_along fun found v₁ _ => ?_
  cases found with
  | some row => exact along_pure trivial
  | none =>
      refine (Steady.of_tame .newId).bind_along fun columnId v₂ _ => along_bind (along_beginTx_bind ?_)
      have hrest : ∀ (row : ColumnRow ι) v₃, Along (kanban ι) Coherent (do
          insertBoardEvent row.tenantId row.boardId "ColumnAdded"
            [("column", eventColumnJson (columnFromRow codec row)), ("position", .num row.position)]
          commitTx "commit failed"
          .pure row) .inside v₃ fun row m v => Along (kanban ι) Coherent (do
            storeIdempotencyId tenantId req.idempotencyKey columnId
            .pure (columnFromRow codec row)) m v fun _ _ _ => True :=
        fun row v₃ => Steady.insertBoardEvent.bind_along fun _ _ _ => along_commitTx_bind fun v₄ =>
          along_pure ((Steady.of_tame (.bind .storeIdempotencyId fun _ => .pure _)).last v₄)
      refine along_ite (along_query_bind fun hv e he => ?_) (along_query_bind fun hv e he => ?_)
      · obtain ⟨n, -, he⟩ := Option.bind_eq_some_iff.mp he
        exact ⟨(hv.insertColumn he).1, hrest _ _⟩
      · exact ⟨hv.insertColumnAt he, hrest _ _⟩

theorem along_removeColumn {req : RemoveColumnRequest} :
    Along (kanban ι) Coherent (removeColumn codec ctx req) .outside v fun _ _ _ => True := by
  refine along_orError_bind fun tenantId _ => along_orError_bind fun objectId _ =>
    along_orError_bind fun boardId _ => along_orError_bind fun columnId _ =>
    along_beginTx_bind ((Steady.of_tame (.query silent_select)).bind_along fun found v₁ _ =>
    along_ensure_bind fun _ => along_query_bind fun hv e he => ⟨hv.deleteColumn he,
    along_ensure_bind fun _ => ?_⟩)
  refine (Steady.attempt fun v e he a ha => ?_).bind_along fun _ v₂ _ =>
    Steady.insertBoardEvent.bind_along fun _ _ _ => along_commit fun b _ _ => ?_
  · cases he
    obtain ⟨⟨k, n⟩, hk, rfl⟩ := List.mem_map.mp ha
    have hmem : k ∈ v.columns := by
      have hsorted := List.fst_mem_of_mem_zipIdx hk
      exact (List.mem_filter.mp ((List.mem_insertionSort _).mp hsorted)).1
    exact ⟨k, hmem, rfl, rfl, rfl⟩
  · cases b with
    | true => exact along_pure trivial
    | false => exact along_fail

/-- A call that creates, moves or deletes cards, columns or boards. -/
inductive PlacingCall
  | createCard (req : CreateCardRequest)
  | moveCard (req : MoveCardRequest)
  | transferCard (req : TransferCardRequest)
  | deleteCard
  | createBoard (req : CreateBoardRequest)
  | deleteBoard
  | addColumn (req : AddColumnRequest)
  | removeColumn (req : RemoveColumnRequest)
  deriving DecidableEq, Repr

/-- The handler of a call, without its response. -/
def placingHandler (codec : IdCodec ι) (unicode : Unicode) (pages : ℕ)
    (q : RequestContext × PlacingCall) : Handler ι Unit :=
  match q.2 with
  | .createCard req => (createCard codec q.1 req).bind fun _ => .pure ()
  | .moveCard req => (moveCard codec pages q.1 req).bind fun _ => .pure ()
  | .transferCard req => (transferCard codec pages q.1 req).bind fun _ => .pure ()
  | .deleteCard => deleteCard codec pages q.1
  | .createBoard req => (createBoard codec unicode q.1 req).bind fun _ => .pure ()
  | .deleteBoard => deleteBoard codec q.1
  | .addColumn req => (addColumn codec q.1 req).bind fun _ => .pure ()
  | .removeColumn req => removeColumn codec q.1 req

theorem along_placingHandler {q : RequestContext × PlacingCall} :
    Along (kanban ι) Coherent (placingHandler codec unicode pages q) .outside v fun _ _ _ => True := by
  have hreply : ∀ {α : Type} {p : Handler ι α},
      Along (kanban ι) Coherent p .outside v (fun _ _ _ => True) →
      Along (kanban ι) Coherent (p.bind fun _ => .pure ()) .outside v fun _ _ _ => True :=
    fun hp => along_bind (hp.mono fun _ _ _ _ => along_pure trivial)
  obtain ⟨ctx, call⟩ := q
  cases call with
  | createCard req => exact hreply along_createCard
  | moveCard req => exact hreply along_moveCard
  | transferCard req => exact hreply along_transferCard
  | deleteCard => exact along_deleteCard
  | createBoard req => exact hreply along_createBoard
  | deleteBoard => exact along_deleteBoard
  | addColumn req => exact hreply along_addColumn
  | removeColumn req => exact along_removeColumn

/-- **Placement coherence.**  Whatever calls are executed one after the other, with whatever
requests, and wherever one of them is cut short: each card's column exists, its board is the
column's board, its project is the board's project, and the three are in one tenant. -/
theorem placement_coherent {w w' : World (Db ι) (Backend ι)}
    {calls : List ((RequestContext × PlacingCall) × List (Act (Move ι)))} (h : Coherent w.store)
    (hrun : Machine.Exec (serialStep (kanban ι) (placingHandler codec unicode pages)) w calls w') :
    Coherent w'.store :=
  Along.serial (fun _ _ _ => along_placingHandler) hrun h

end Handlers

/-- A project without boards. -/
def oneProject : World (Db String) (Backend String) where
  store := { Db.empty with projects := [⟨"p", "t", "Roadmap", "ROAD", "ROAD", "", "user:ann"⟩] }
  ext := Backend.empty

/-- A board with two columns and two cards is built up; then one card moves, and the other is
deleted. -/
def buildUp : List ((RequestContext × PlacingCall) × List (Act (Move String))) :=
  let caller (objectId : String) : RequestContext :=
    ⟨some ⟨some "t", some "user:ann"⟩, some objectId, 0⟩
  [((caller "p", .createBoard ⟨"Board", "", "", 1, ""⟩),
      [.move .done, .move (.fresh "b"), .ok, .ok, .move (.fresh "e1"), .ok, .ok, .ok]),
    ((caller "b", .addColumn ⟨"Todo", "", 0, 0, false, ""⟩),
      [.move (.fresh "k"), .ok, .ok, .ok, .move (.fresh "e2"), .ok, .ok, .ok]),
    ((caller "b", .addColumn ⟨"Done", "", 0, 1, true, ""⟩),
      [.move (.fresh "l"), .ok, .ok, .ok, .move (.fresh "e3"), .ok, .ok, .ok]),
    ((caller "b", .createCard ⟨"k", "Ship", "", 0, none, "", 0, "", 0⟩),
      [.ok, .ok, .ok, .ok, .ok, .move (.fresh "c"), .ok, .ok, .ok, .move (.fresh "e4"), .ok, .ok, .ok]),
    ((caller "b", .createCard ⟨"k", "Sail", "", 0, none, "", 0, "", 0⟩),
      [.ok, .ok, .ok, .ok, .ok, .move (.fresh "d"), .ok, .ok, .ok, .move (.fresh "e5"), .ok, .ok, .ok]),
    ((caller "c", .moveCard ⟨"l", 0, ""⟩),
      [.ok, .ok, .ok, .ok, .ok, .ok, .ok, .ok, .ok, .move (.fresh "e6"), .ok, .ok, .ok]),
    ((caller "d", .deleteCard),
      [.ok, .ok, .ok, .ok, .move (.fresh "e7"), .ok, .ok, .ok, .move .done, .move (.page 10)])]

theorem placement_coherent_buildUp :
    ∃ w, Machine.Exec (serialStep (kanban String) (placingHandler textIds ⟨Char.isAlphanum, id⟩ 1))
        oneProject buildUp w ∧ Coherent w.store ∧
      w.store.cards.map (fun c => (c.id, c.projectId, c.boardId, c.columnId)) = [("c", "p", "b", "l")] := by
  obtain ⟨w, hw, hcards⟩ : ∃ w, Machine.run (serialStep (kanban String)
      (placingHandler textIds ⟨Char.isAlphanum, id⟩ 1)) oneProject buildUp = some w ∧
      w.store.cards.map (fun c => (c.id, c.projectId, c.boardId, c.columnId)) = [("c", "p", "b", "l")] :=
    ⟨_, rfl, rfl⟩
  have hrun := Machine.exec_of_run hw
  have hstart : Coherent oneProject.store :=
    ⟨by simp [oneProject, Db.empty], by simp [oneProject, Db.empty], by simp [oneProject, Db.empty],
      by simp [oneProject, Db.empty]⟩
  exact ⟨w, hrun, placement_coherent hstart hrun, hcards⟩

end Kanban.Rpc
