import Kanban.Rpc.CreateProject
import Kanban.Rpc.OrderedRuns
import Kanban.Rpc.RefCalls

/-!
# References over runs

The numbers of a project in every run of the mutations of cards and of projects, whose transactions
may be rolled back or lost at any step, as long as the lock of a counter keeps two transactions that
draw from it apart.

## Main definitions

* `RefCall`, `refHandler` — the calls.
* `refs_counted` — no number is skipped or drawn twice, and no reference is given to two cards.
-/

namespace Kanban.Rpc

open Program Kanban.Store Kanban.Auth
open Kanban.Services (AuthContext ConnectError IdCodec)

variable {ι : Type} [DecidableEq ι]

/-- A mutation of a card, or an update of a project. -/
inductive RefCall
  | card (call : CardCall)
  | updateProject (req : UpdateProjectRequest)
  deriving DecidableEq, Repr

/-- The handler of a call, less its response. -/
def refHandler (codec : IdCodec ι) (pages : ℕ) (unicode : Unicode) :
    RequestContext × RefCall → Handler ι Unit
  | (ctx, .card call) => (cardHandler codec pages ctx call).bind fun _ => .pure ()
  | (ctx, .updateProject req) => (updateProject codec unicode ctx req).bind fun _ => .pure ()

theorem settled_refHandler {codec : IdCodec ι} {pages : ℕ} {unicode : Unicode}
    (q : RequestContext × RefCall) : RefSettled (refHandler codec pages unicode q) := by
  obtain ⟨ctx, call⟩ := q
  cases call with
  | card call => exact .bind RefSettled.cardHandler fun _ => .pure _
  | updateProject req => exact .bind RefSettled.updateProject fun _ => .pure _

section Kept

variable {κ ε α : Type} {p : ι} {db : Db ι} {log : List (CommitOf κ (Rec ι) (Call ι) (Reply ι))}
  {ws : List (Write (Rec ι))} {g : Draw ι}

/-- A project that starts without a counter and without cards. -/
theorem refsKept_start (hcounter : ∀ r ∈ db.projectRefCounter, r.projectId ≠ p)
    (hcards : ∀ c ∈ db.cards, c.projectId ≠ p) :
    RefsKept p db ([] : List (CommitOf κ (Rec ι) (Call ι) (Reply ι))) where
  numbers := by
    have hnone : db.projectRefCounter.find? (fun r => p = r.projectId) = none :=
      List.find?_eq_none.mpr fun r hr h => hcounter r hr (of_decide_eq_true h).symm
    refine ⟨0, ?_, rfl⟩
    rw [drawn, hnone]
    rfl
  cards row hrow hp := absurd hp (hcards row hrow)
  told := by
    rintro x ref ⟨c, hc, -⟩
    cases hc
  single := by
    rintro x y ref ⟨c, hc, -⟩
    cases hc

/-- The reference of a card in an open transaction is no other card's. -/
theorem DrawKept.alone (hI : RefsKept p db log) (h : DrawKept p db log ws g) {row : CardRow ι}
    (hrow : .put (.card row) ∈ ws) (hp : row.projectId = p) {x : ι} (hx : Told p log x row.ref) :
    x = row.id := by
  rcases h.cards row hrow hp with htold | ⟨r, hg, hr, href⟩
  · exact hI.single _ _ _ hx htold
  · obtain ⟨a, k, hk, hle, heq⟩ := hI.told _ _ hx
    have hseq := h.next r _ hg hr
    have hnumber := ref_injective (by omega) (by omega) (heq.symm.trans href)
    omega

end Kept

/-- **The references of a project.**  From a state in which the project has no counter and no cards,
whatever mutations of cards and projects come and however their statements mix, if no call commits
the counter of a project while another one holds it: the numbers that were committed are 1 to n in
the order of the commits, a reference that was ever put in the project is one card's, and so no card
that waits in an open transaction has the reference of another card. -/
theorem refs_counted {codec : IdCodec ι} {pages : ℕ} {unicode : Unicode} {p : ι}
    {P₀ : Pool (RequestContext × RefCall) (Db ι) (Rec ι) (Call ι) (Reply ι) (Backend ι)
      ConnectError Unit}
    {turns : List (Turn (RequestContext × RefCall) (Move ι))}
    {S : Pool (RequestContext × RefCall) (Db ι) (Rec ι) (Call ι) (Reply ι) (Backend ι)
      ConnectError Unit × List (CommitOf (RequestContext × RefCall) (Rec ι) (Call ι) (Reply ι))}
    (h₀ : P₀.calls = [])
    (hcounter : ∀ r ∈ P₀.world.store.projectRefCounter, r.projectId ≠ p)
    (hcards : ∀ c ∈ P₀.world.store.cards, c.projectId ≠ p)
    (hrun : Machine.ExecWhile (Pool.logStep (kanban ι) (refHandler codec pages unicode))
      (fun S a => S.1.Apart (kanban ι) (fun h h' => SameCounter h.2 h'.2) a) (P₀, []) turns S) :
    (∃ n : ℕ, drawn S.1.world.store p = n ∧
      numbersOf p S.2 = (List.range n).map fun i : ℕ => (i : ℤ) + 1) ∧
    (∀ x y ref, Told p S.2 x ref → Told p S.2 y ref → x = y) ∧
    (∀ c ∈ S.1.world.store.cards, c.projectId = p → Told p S.2 c.id c.ref) ∧
    ∀ call ∈ S.1.calls, ∀ row, .put (.card row) ∈ call.2.waiting → row.projectId = p →
      ∀ x, Told p S.2 x row.ref → x = row.id := by
  obtain ⟨hI, hcalls⟩ := Discipline.Law.kept (K := refLaw p _) settled_refHandler hrun h₀
    (refsKept_start hcounter hcards)
  refine ⟨hI.numbers, hI.single, hI.cards, fun call hcall row hrow hp x hx => ?_⟩
  obtain ⟨s, -, hknows⟩ := hcalls call hcall
  unfold Thread.waiting at hrow
  split at hrow
  · rename_i hnone
    have hk := hknows (Option.isNone_iff_eq_none.mp hnone)
    revert hk hrow
    cases call.2.tx with
    | active ws =>
        intro hrow hk
        cases s with
        | active g => exact DrawKept.alone hI hk hrow hp hx
        | idle => exact hk.elim
        | aborted => exact hk.elim
    | idle => exact fun hrow => by cases hrow
    | aborted => exact fun hrow => by cases hrow
  · cases hrow

/-- A card on the board, up to its reference, and the rest of the call. -/
def draws : List (Act (Move String)) := [.ok, .ok, .ok, .ok, .ok]

def storesDraw (cardId event : String) : List (Act (Move String)) :=
  [.move (.fresh cardId), .ok, .ok, .ok, .move (.fresh event), .ok, .ok, .ok, .move .done,
    .move .done] ++ fullCardReads

def createInTodo : RequestContext × RefCall :=
  (annOn "b", .card (.createCard ⟨"k", "Ship", "", 0, none, "", 0, "", 0⟩))

/-- The prefix changes while a card is created, and the next creation is lost and made again. -/
theorem refs_counted_mixed :
    ∃ S, Machine.ExecWhile (Pool.logStep (kanban String) (refHandler textIds 1 asciiUpper))
        (fun S a => S.1.Apart (kanban String) (fun h h' => SameCounter h.2 h'.2) a)
        (Pool.idle twoColumns, [])
        (.arrive createInTodo :: draws.map (.act 0) ++
          .arrive (annOn "p", .updateProject ⟨"", "X-0", ""⟩) ::
          [.act 1 .ok, .act 1 .ok, .act 1 (.move (.fresh "e")), .act 1 .ok, .act 1 .ok, .act 1 .ok,
            .act 1 .ok] ++ (storesDraw "c" "f").map (.act 0) ++
          .arrive createInTodo :: draws.map (.act 2) ++ .crash 2 ::
          .arrive createInTodo :: (draws ++ storesDraw "d" "g").map (.act 2)) S ∧
      S.1.world.store.cards.map CardRow.ref = ["ROAD-001", "X-0-002"] ∧
      numbersOf "p" S.2 = [1, 2] ∧
      ∀ x y ref, Told "p" S.2 x ref → Told "p" S.2 y ref → x = y := by
  obtain ⟨S, hS, hok⟩ : ∃ S, Machine.run (Machine.guarded
      (Pool.logStep (kanban String) (refHandler textIds 1 asciiUpper))
      (fun S a => S.1.Apart (kanban String) (fun h h' => SameCounter h.2 h'.2) a))
        (Pool.idle twoColumns, [])
        (.arrive createInTodo :: draws.map (.act 0) ++
          .arrive (annOn "p", .updateProject ⟨"", "X-0", ""⟩) ::
          [.act 1 .ok, .act 1 .ok, .act 1 (.move (.fresh "e")), .act 1 .ok, .act 1 .ok, .act 1 .ok,
            .act 1 .ok] ++ (storesDraw "c" "f").map (.act 0) ++
          .arrive createInTodo :: draws.map (.act 2) ++ .crash 2 ::
          .arrive createInTodo :: (draws ++ storesDraw "d" "g").map (.act 2)) = some S ∧
      S.1.world.store.cards.map CardRow.ref = ["ROAD-001", "X-0-002"] ∧
      numbersOf "p" S.2 = [1, 2] := ⟨_, rfl, rfl, rfl⟩
  have hrun := Machine.execWhile_of_run hS
  exact ⟨S, hrun, hok.1, hok.2, (refs_counted rfl (by decide) (by decide) hrun).2.1⟩

end Kanban.Rpc
