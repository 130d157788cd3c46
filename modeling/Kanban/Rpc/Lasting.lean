import Kanban.Lib.Lasts
import Kanban.Rpc.Alone

/-!
# Handlers in the midst of others

How the statements of a handler go on while other calls are under way, where a fact lasts from one
commit to the next.

## Main definitions

* `yields_mute_bind`, `yields_strict_bind` — parts of a handler that commit nothing.
* `yields_fetchFullCard` — the card of a response is the one that was asked for.
-/

namespace Kanban.Rpc

open Program Kanban.Store Kanban.Auth
open Kanban.Services (AuthContext ConnectError IdCodec)

variable {ι α β : Type} [DecidableEq ι] {R : Rely (Db ι) (Rec ι) (Call ι) (Reply ι) (Backend ι)}
  {G : Guarantee (Db ι) (Rec ι) (Call ι) (Reply ι) (Backend ι)}
  {I : Trace (Rec ι) (Call ι) (Reply ι) → World (Db ι) (Backend ι) → Prop} {tx : Tx (Rec ι)}
  {tr : Trace (Rec ι) (Call ι) (Reply ι)} {w : World (Db ι) (Backend ι)} {ws : List (Write (Rec ι))}
  {msg : String} {f : β → Handler ι α}
  {Q : α → Tx (Rec ι) → Trace (Rec ι) (Call ι) (Reply ι) → World (Db ι) (Backend ι) → Prop}

theorem yields_orError_bind {o : Option β} {e : ConnectError}
    (hk : ∀ b, o = some b → Yields (kanban ι) R G (f b) tx tr w Q) :
    Yields (kanban ι) R G ((orError e o).bind f) tx tr w Q := by
  cases o with
  | none => exact yields_fail
  | some b => exact hk b rfl

theorem yields_ensure_bind {p : Prop} [Decidable p] {e : ConnectError} {f : Unit → Handler ι α}
    (hk : p → Yields (kanban ι) R G (f ()) tx tr w Q) :
    Yields (kanban ι) R G ((ensure p e).bind f) tx tr w Q := by
  unfold ensure
  split
  · exact hk ‹p›
  · exact yields_fail

variable (hI : Lasts R G I)

include hI

/-- A program that writes nothing, and what comes after it. -/
theorem yields_mute_bind {p : Handler ι β} (hp : Mute p) (h : I tr w)
    (hk : ∀ b tr' w', I tr' w' → Yields (kanban ι) R G (f b) .idle tr' w' Q) :
    Yields (kanban ι) R G (p.bind f) .idle tr w Q :=
  yields_bind ((hI.of_only_nil hp h).mono fun b _ tr' w' ⟨htx, h'⟩ => htx ▸ hk b tr' w' h')

/-- The first row of a `SELECT` is there. -/
theorem yields_fetchOr_bind {err : ConnectError} {T : Table (Db ι) (Rec ι) β} {p : β → Bool}
    (h : I tr w)
    (hk : ∀ r tr' w', r ∈ T.rows w'.store → p r → I tr' w' →
      Yields (kanban ι) R G (f r) .idle tr' w' Q) :
    Yields (kanban ι) R G ((fetchOr msg err (T.select p)).bind f) .idle tr w Q := by
  refine yields_bind (yields_bind (yields_bind (hI.query_idle (fun _ _ he => by cases he; rfl) h
    (fun w₁ e he h₁ => ?_) fun _ _ => yields_fail)))
  cases he
  refine yields_pure (yields_pure ?_)
  cases hrow : ((T.rows w₁.store).filter p).head? with
  | none => exact yields_fail
  | some r =>
      obtain ⟨hr, hp⟩ := List.mem_filter.mp (List.mem_of_mem_head? hrow)
      exact yields_pure (hk r _ w₁ hr hp h₁)

theorem yields_beginTx_bind {f : Unit → Handler ι α} (h : I tr w)
    (hk : ∀ w', I tr w' → Yields (kanban ι) R G (f ()) (.active []) tr w' Q) :
    Yields (kanban ι) R G ((beginTx msg).bind f) .idle tr w Q :=
  hI.begin h hk fun _ _ => yields_fail

/-- A statement of a transaction. -/
theorem yields_query_bind {st : Stmt (Db ι) (Rec ι) β} (h : I tr w)
    (hk : ∀ w₁ e, st ((kanban ι).applyAll w₁.store ws) = some e → I (.ran e.read :: tr) w₁ →
      Yields (kanban ι) R G (f e.answer) (.active (ws ++ e.writes)) (.ran e.read :: tr) w₁ Q) :
    Yields (kanban ι) R G ((query msg st).bind f) (.active ws) tr w Q :=
  hI.query_active h hk fun _ _ => yields_fail

/-- A part of a transaction that stops at the first statement that fails. -/
theorem yields_strict_bind {P : Write (Rec ι) → Prop} {p : Handler ι β}
    (hp : p.Strict fun ws => ∀ a ∈ ws, P a) (h : I tr w)
    (hk : ∀ b ws' tr' w', (∀ a ∈ ws', P a) → I tr' w' →
      Yields (kanban ι) R G (f b) (.active (ws ++ ws')) tr' w' Q) :
    Yields (kanban ι) R G (p.bind f) (.active ws) tr w Q := by
  refine yields_bind ((hI.of_strict hp h (List.forall_mem_nil _)
    fun ws ws' hws hws' => List.forall_mem_append.mpr ⟨hws, hws'⟩).mono ?_)
  rintro b tx tr' w' ⟨h', ws', rfl, hws'⟩
  exact hk b ws' tr' w' hws' h'

/-- The card of a response is the one that was asked for. -/
theorem yields_fetchFullCard {codec : IdCodec ι} {t : String} {x : ι} (h : I tr w) :
    Yields (kanban ι) R G (fetchFullCard codec t x) .idle tr w fun card tx tr' w' =>
      card.id = codec.toString x ∧ tx = .idle ∧ I tr' w' := by
  refine yields_fetchOr_bind hI h fun row tr₁ w₁ _ hrow h₁ => ?_
  obtain ⟨rfl, -⟩ : row.id = x ∧ row.tenantId = t := of_decide_eq_true hrow
  refine yields_mute_bind hI (.bind (.fetchAll ?_) fun _ => .pure _) h₁ fun _ _ _ h₂ =>
    yields_mute_bind hI (.bind (.fetchAll ?_) fun _ => .pure _) h₂ fun _ _ _ h₃ =>
    yields_mute_bind hI (.bind (.fetchAll ?_) fun _ => .pure _) h₃ fun _ _ _ h₄ =>
    yields_mute_bind hI (.bind (.fetchAll ?_) fun _ => .pure _) h₄ fun _ _ _ h₅ =>
    yields_mute_bind hI (.bind (.fetchAll ?_) fun _ => .pure _) h₅ fun _ _ _ h₆ =>
    yields_mute_bind hI (.bind (.fetchAll ?_) fun _ => .pure _) h₆ fun _ _ _ h₇ =>
    yields_mute_bind hI (.bind (.fetchAll ?_) fun _ => .pure _) h₇ fun _ _ _ h₈ =>
    yields_pure ⟨rfl, rfl, h₈⟩
  all_goals rintro db e ⟨⟩; rfl

end Kanban.Rpc
