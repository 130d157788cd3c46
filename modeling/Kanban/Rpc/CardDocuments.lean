import Kanban.Rpc.References
import Kanban.Rpc.SearchIndex

/-!
# Documents and writes

The document of a card is read off its row, its labels and its assignees.  Most writes leave it as
it is: those of other tables and of other cards, and those that change only the place of the card.

## Main definitions

* `cardRow`, `document` — the row and the document of a card.
* `docView` — the part of the store that the document is built of.
* `Spares` — a write that leaves this part as it is.
-/

namespace Program.Table

variable {τ : Type} {same : τ → τ → Bool} {r : τ} {rows : List τ} {p : τ → Bool}

/-- The rows under another key. -/
theorem filter_put_of_ne (hp : ∀ r', same r r' = true → p r' = false) (hr : p r = false) :
    (put same r rows).filter p = rows.filter p := by
  unfold put
  split
  · clear * - hp hr
    induction rows with
    | nil => rfl
    | cons r' rows ih =>
        by_cases hs : same r r' = true
        · simp [hs, hp r' hs, hr, ih]
        · simp [hs, ih, List.filter_cons]
  · simp [hr]

theorem filter_del_of_ne (hp : ∀ r', same r r' = true → p r' = false) :
    (del same r rows).filter p = rows.filter p := by
  rw [del, List.filter_filter]
  refine List.filter_congr fun r' _ => ?_
  by_cases hs : same r r' = true
  · simp [hp r' hs]
  · simp [hs]

end Program.Table

namespace Kanban.Rpc

open Program Kanban.Store Kanban.Auth
open Kanban.Services (CardDocument IdCodec)

variable {ι : Type} [DecidableEq ι] {db db' : Db ι} {x y : ι} {a : Write (Rec ι)}
  {ws : List (Write (Rec ι))}

/-! ## The row of a card -/

/-- The row of a card. -/
def cardRow (db : Db ι) (x : ι) : Option (CardRow ι) := db.cards.find? fun c => c.id = x

/-- The row of a card after a write. -/
def rowAfter (x : ι) (row : Option (CardRow ι)) : Write (Rec ι) → Option (CardRow ι)
  | .put (.card c) => if c.id = x then some c else row
  | .del (.card c) => if c.id = x then none else row
  | _ => row

/-- Some of the writes is of the row of the card. -/
def WritesCard (ws : List (Write (Rec ι))) (x : ι) : Prop :=
  ∃ a ∈ ws, ∃ c, a.record = .card c ∧ c.id = x

theorem cardRow_apply : cardRow (db.apply a) x = rowAfter x (cardRow db x) a := by
  cases a with
  | put r =>
      cases r
      case card c =>
        have hrows : (db.apply (.put (.card c))).cards = Table.put Db.cardsT.same c db.cards := rfl
        rw [cardRow, hrows]
        by_cases hc : c.id = x
        · subst hc
          rw [Table.find?_put_self (fun r' => by simp [eq_comm]) (by simp)]
          simp [rowAfter]
        · rw [Table.find?_put_of_ne ?_ (by simpa using hc)]
          · simp [rowAfter, hc, cardRow]
          · intro r' hr'
            have hid : c.id = r'.id := of_decide_eq_true hr'
            simpa [← hid] using hc
      all_goals rfl
  | del r =>
      cases r
      case card c =>
        have hrows : (db.apply (.del (.card c))).cards = Table.del Db.cardsT.same c db.cards := rfl
        rw [cardRow, hrows]
        by_cases hc : c.id = x
        · subst hc
          rw [Table.find?_del_self fun r' => by simp [eq_comm]]
          simp [rowAfter]
        · rw [Table.find?_del_of_ne]
          · simp [rowAfter, hc, cardRow]
          · intro r' hr'
            have hid : c.id = r'.id := of_decide_eq_true hr'
            simpa [← hid] using hc
      all_goals rfl

/-- The row after some writes comes of the row before them. -/
theorem cardRow_applyAll :
    cardRow ((kanban ι).applyAll db ws) x = ws.foldl (rowAfter x) (cardRow db x) := by
  induction ws generalizing db with
  | nil => rfl
  | cons a ws ih =>
      rw [Semantics.applyAll_cons, kanban_apply, ih, cardRow_apply]
      rfl

theorem cardRow_applyAll_congr (h : cardRow db x = cardRow db' x) :
    cardRow ((kanban ι).applyAll db ws) x = cardRow ((kanban ι).applyAll db' ws) x := by
  rw [cardRow_applyAll, cardRow_applyAll, h]

theorem rowAfter_of_ne {row : Option (CardRow ι)} (h : ∀ c, a.record = .card c → c.id ≠ x) :
    rowAfter x row a = row := by
  rcases a with (r | r) <;> cases r <;> first | rfl | exact if_neg (h _ rfl)

/-- Writes of other rows. -/
theorem cardRow_of_not_writesCard (h : ¬ WritesCard ws x) :
    cardRow ((kanban ι).applyAll db ws) x = cardRow db x := by
  induction ws generalizing db with
  | nil => rfl
  | cons a ws ih =>
      rw [Semantics.applyAll_cons, ih fun ⟨b, hb, hrow⟩ => h ⟨b, List.mem_cons_of_mem _ hb, hrow⟩,
        kanban_apply, cardRow_apply]
      exact rowAfter_of_ne fun c hc hid => h ⟨a, List.mem_cons_self, c, hc, hid⟩

theorem mem_of_cardRow {c : CardRow ι} (h : cardRow db x = some c) : c ∈ db.cards ∧ c.id = x :=
  ⟨List.mem_of_find?_eq_some h, by simpa using List.find?_some h⟩

theorem cardRow_eq_none : cardRow db x = none ↔ ∀ c ∈ db.cards, c.id ≠ x := by
  simp [cardRow]

/-- With distinct ids every row is found. -/
theorem cardRow_of_mem {c : CardRow ι} (hkeyed : (db.cards.map CardRow.id).Nodup)
    (hc : c ∈ db.cards) : cardRow db c.id = some c := by
  cases h : cardRow db c.id with
  | none => exact absurd rfl (cardRow_eq_none.mp h c hc)
  | some c' =>
      obtain ⟨hc', hid⟩ := mem_of_cardRow h
      rw [List.inj_on_of_nodup_map hkeyed hc' hc hid]

/-! ## Its document -/

/-- What of the row of a card is in its document. -/
def face (c : CardRow ι) :=
  (c.id, c.tenantId, c.boardId, c.projectId, c.ref, c.title, c.description, c.priority,
    c.completedAt)

/-- The document of a card. -/
def document (D : OutboxDispatcher ι) (db : Db ι) (x : ι) : Option CardDocument :=
  (cardRow db x).map fun c =>
    cardDocument D c (labelNames db c.tenantId x) (assigneeSubjects db c.tenantId x)

/-- The part of the store that the document of a card is built of. -/
def docView (db : Db ι) (x : ι) :=
  ((cardRow db x).map face, db.cardLabels.filter (·.cardId = x),
    db.cardAssignees.filter (·.cardId = x), db.labels)

/-- The write leaves what the document of a card is built of; a row of the card that it puts has the
face that the stored one has. -/
def Spares (db : Db ι) (x : ι) : Write (Rec ι) → Prop
  | .put (.card c) => c.id = x → (cardRow db x).map face = some (face c)
  | .del (.card c) => c.id ≠ x
  | .put (.cardLabel r) => r.cardId ≠ x
  | .del (.cardLabel r) => r.cardId ≠ x
  | .put (.assignee r) => r.cardId ≠ x
  | .del (.assignee r) => r.cardId ≠ x
  | .put (.label _) => False
  | .del (.label _) => False
  | _ => True

section Documents

variable {D : OutboxDispatcher ι} {c c' : CardRow ι} {labels assignees : List String} {t : String}

omit [DecidableEq ι] in
theorem cardDocument_congr (h : face c = face c') :
    cardDocument D c labels assignees = cardDocument D c' labels assignees := by
  simp only [face, Prod.mk.injEq] at h
  obtain ⟨hid, htenant, hboard, hproject, href, htitle, hdescription, hpriority, hcompleted⟩ := h
  simp only [cardDocument, hid, htenant, hboard, hproject, href, htitle, hdescription, hpriority,
    hcompleted]

theorem labelNames_congr (h : docView db x = docView db' x) :
    labelNames db t x = labelNames db' t x := by
  simp only [docView, Prod.mk.injEq] at h
  obtain ⟨-, hlinks, -, hlabels⟩ := h
  have hany : ∀ db : Db ι, ∀ l : LabelRow ι,
      (db.cardLabels.any fun cl => cl.cardId = x ∧ cl.labelId = l.id) =
        (db.cardLabels.filter (·.cardId = x)).any (·.labelId = l.id) := by
    intro db l
    rw [List.any_filter]
    simp
  simp only [labelNames, selectLabels, hany, hlinks, hlabels]

theorem assigneeSubjects_congr (h : docView db x = docView db' x) :
    assigneeSubjects db t x = assigneeSubjects db' t x := by
  simp only [docView, Prod.mk.injEq] at h
  have hfilter : ∀ db : Db ι, (db.cardAssignees.filter fun a => a.cardId = x ∧ a.tenantId = t) =
      (db.cardAssignees.filter (·.cardId = x)).filter (·.tenantId = t) := by
    intro db
    rw [List.filter_filter]
    refine List.filter_congr fun a _ => ?_
    rw [Bool.and_comm]
    exact Bool.decide_and _ _
  rw [assigneeSubjects, assigneeSubjects, hfilter, hfilter, h.2.2.1]

/-- The document is a matter of this part of the store. -/
theorem document_congr (h : docView db x = docView db' x) : document D db x = document D db' x := by
  have hface : (cardRow db x).map face = (cardRow db' x).map face := congrArg Prod.fst h
  unfold document
  cases hc : cardRow db x with
  | none =>
      rw [hc, Option.map_none] at hface
      rw [Option.map_eq_none_iff.mp hface.symm]
      rfl
  | some c =>
      rw [hc, Option.map_some] at hface
      obtain ⟨c', hc', hsame⟩ := Option.map_eq_some_iff.mp hface.symm
      have htenant : c'.tenantId = c.tenantId := congrArg (·.2.1) hsame
      rw [hc', Option.map_some, Option.map_some, cardDocument_congr hsame, htenant,
        labelNames_congr h, assigneeSubjects_congr h]

theorem docView_apply {db₀ : Db ι} (h : Spares db₀ x a)
    (hface : (cardRow db x).map face = (cardRow db₀ x).map face) :
    docView (db.apply a) x = docView db x := by
  have hcard : (cardRow (db.apply a) x).map face = (cardRow db x).map face := by
    rw [cardRow_apply]
    by_cases ha : ∃ c, a = .put (.card c) ∧ c.id = x
    · obtain ⟨c, rfl, hc⟩ := ha
      rw [rowAfter, if_pos hc, hface, h hc]
      rfl
    · rw [rowAfter_of_ne fun c hc hid => ?_]
      cases a with
      | put r =>
          cases hc
          exact ha ⟨c, rfl, hid⟩
      | del r =>
          cases hc
          exact h hid
  have hlinks : (db.apply a).cardLabels.filter (·.cardId = x) =
      db.cardLabels.filter (·.cardId = x) := by
    cases a with
    | put r =>
        cases r
        case cardLabel r =>
          refine Table.filter_put_of_ne (fun r' hr' => ?_) (decide_eq_false h)
          have hkey := of_decide_eq_true hr'
          exact decide_eq_false fun heq => h (hkey.1.trans heq)
        all_goals rfl
    | del r =>
        cases r
        case cardLabel r =>
          refine Table.filter_del_of_ne fun r' hr' => ?_
          have hkey := of_decide_eq_true hr'
          exact decide_eq_false fun heq => h (hkey.1.trans heq)
        all_goals rfl
  have hassignees : (db.apply a).cardAssignees.filter (·.cardId = x) =
      db.cardAssignees.filter (·.cardId = x) := by
    cases a with
    | put r =>
        cases r
        case assignee r =>
          refine Table.filter_put_of_ne (fun r' hr' => ?_) (decide_eq_false h)
          have hkey := of_decide_eq_true hr'
          exact decide_eq_false fun heq => h (hkey.1.trans heq)
        all_goals rfl
    | del r =>
        cases r
        case assignee r =>
          refine Table.filter_del_of_ne fun r' hr' => ?_
          have hkey := of_decide_eq_true hr'
          exact decide_eq_false fun heq => h (hkey.1.trans heq)
        all_goals rfl
  have hlabels : (db.apply a).labels = db.labels := by
    rcases a with (r | r) <;> cases r <;> first | rfl | exact h.elim
  rw [docView, hcard, hlinks, hassignees, hlabels]
  rfl

/-- **Writes that spare a card** leave its document as it is. -/
theorem docView_applyAll (h : ∀ a ∈ ws, Spares db x a) :
    docView ((kanban ι).applyAll db ws) x = docView db x := by
  have key : ∀ {ws : List (Write (Rec ι))} {db' : Db ι}, (∀ a ∈ ws, Spares db x a) →
      (cardRow db' x).map face = (cardRow db x).map face →
      docView ((kanban ι).applyAll db' ws) x = docView db' x := by
    intro ws
    induction ws with
    | nil => exact fun _ _ => rfl
    | cons a ws ih =>
        intro db' hws hface
        have hone := docView_apply (hws a List.mem_cons_self) hface
        rw [Semantics.applyAll_cons, kanban_apply, ← hone]
        refine ih (fun b hb => hws b (List.mem_cons_of_mem _ hb)) ?_
        rw [← hface]
        exact congrArg Prod.fst hone
  exact key h rfl

end Documents

end Kanban.Rpc
