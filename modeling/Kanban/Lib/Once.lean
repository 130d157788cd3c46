import Kanban.Lib.Lasts
import Kanban.Lib.Pool

/-!
# Making a thing once

Calls share a key.  A call looks the key up; when nothing is stored for it, it makes a thing in one
commit and then stores what it has made with another.  The two are not one step, so that calls may
overlap, and a call may be lost in between.

In the runs in which no call makes or stores a thing while another one may still make one, and none
ends between the two, at most one thing is made, and every call that stored or found one has it.

## Main definitions

* `Once.Phase`, `Once` — how far a call is, by its trace; what the store says of the key.
* `Once.Move` — what a step does to both.
* `Once.Runs` — how a call goes on; `Once.At`, how far it is.
* `Once.Single` — the turns under which one thing is made.
* `Once.Settled` — the invariant of a pool, and `Once.settled`, its runs.
-/

namespace Program

variable {σ ρ Call : Type} {Reply : Call → Type} {ε α β χ μ κ ν : Type}

/-- How far a call is. -/
inductive Once.Phase (ν : Type)
  | fresh
  /-- It has found nothing under the key. -/
  | missed
  | made (x : ν)
  | stored (x : ν)
  | found (x : ν)
  /-- It could not look the key up. -/
  | lost
  deriving DecidableEq

/-- What the store says of the key and of the things that are made, and how far a call is after a
trace.  The first event of a call tells whether it could look the key up; after it the call comes
further only by what it commits. -/
structure Once (σ ρ Call : Type) (Reply : Call → Type) (ν : Type) where
  key : σ → Option ν
  Made : σ → ν → Prop
  Grows : σ → σ → Prop
  phase : Trace ρ Call Reply → Once.Phase ν
  grows_refl : ∀ s, Grows s s
  grows_trans : ∀ s s' s'', Grows s s' → Grows s' s'' → Grows s s''
  phase_nil : phase [] = .fresh
  phase_failed : phase [.failed] = .lost
  phase_cons : ∀ e tr, tr ≠ [] → (∀ ws, e = .committed ws → ws = []) → phase (e :: tr) = phase tr

namespace Once

namespace Phase

/-- The call has made a thing that is not stored. -/
def pending : Phase ν → Bool
  | .made _ => true
  | _ => false

/-- The call may make or store a thing. -/
def waits : Phase ν → Bool
  | .missed => true
  | .made _ => true
  | _ => false

/-- Nothing was made, found or stored. -/
def idle : Phase ν → Bool
  | .fresh => true
  | .missed => true
  | .lost => true
  | _ => false

end Phase

variable (O : Once σ ρ Call Reply ν)

/-- The same is stored and made. -/
def Same (s s' : σ) : Prop := O.key s' = O.key s ∧ ∀ x, O.Made s' x ↔ O.Made s x

/-- What a step of a call does. -/
inductive Move : Phase ν → σ → Phase ν → σ → Prop
  | stay {p : Phase ν} {s s' : σ} (h : O.Same s s') : Move p s p s'
  | lose {s s' : σ} (h : O.Same s s') : Move .fresh s .lost s'
  | miss {s s' : σ} (h : O.Same s s') (hkey : O.key s = none) : Move .fresh s .missed s'
  | find {s s' : σ} {x : ν} (h : O.Same s s') (hkey : O.key s = some x) : Move .fresh s (.found x) s'
  | make {s s' : σ} (x : ν) (hkey : O.key s' = O.key s) (hmade : ∀ y, O.Made s' y ↔ O.Made s y ∨ y = x) :
      Move .missed s (.made x) s'
  | store {s s' : σ} {x : ν} (hkey : O.key s' = some x) (hmade : ∀ y, O.Made s' y ↔ O.Made s y) :
      Move (.made x) s (.stored x) s'

/-- The call has not returned and may make or store a thing. -/
def Waits (c : κ × Thread σ ρ Call Reply ε α) : Prop :=
  c.2.prog.result = none ∧ (O.phase c.2.trace).waits

/-- The turns under which one thing is made: a call makes or stores one only while no other may do so,
and no call returns or is lost that has made one without storing it. -/
def Single (M : Semantics σ ρ Call Reply χ μ) (P : Pool κ σ ρ Call Reply χ ε α) :
    Turn κ μ → Prop
  | .arrive _ => True
  | .act i b => ∀ c ∈ P.calls[i]?, ∀ r ∈ Thread.step M (c.2, P.world) b,
      ((O.phase c.2.trace).waits → O.phase r.1.trace ≠ O.phase c.2.trace →
        ∀ d ∈ P.calls.eraseIdx i, ¬ O.Waits d) ∧
      (r.1.prog.result.isSome → ¬ (O.phase r.1.trace).pending)
  | .crash i => ∀ c ∈ P.calls[i]?, ¬ (O.phase c.2.trace).pending

instance {c : κ × Thread σ ρ Call Reply ε α} : Decidable (O.Waits c) :=
  inferInstanceAs (Decidable (_ ∧ _))

instance [DecidableEq ν] {M : Semantics σ ρ Call Reply χ μ} {P : Pool κ σ ρ Call Reply χ ε α}
    {a : Turn κ μ} : Decidable (O.Single M P a) :=
  match a with
  | .arrive _ => .isTrue trivial
  | .act i b => inferInstanceAs (Decidable (∀ c ∈ P.calls[i]?,
      ∀ r ∈ Thread.step M (c.2, P.world) b, _ ∧ _))
  | .crash i => inferInstanceAs (Decidable (∀ c ∈ P.calls[i]?, _))

/-- Nothing was made, or one thing was made by a call that is still to store it, or it is stored. -/
inductive Settled (P : Pool κ σ ρ Call Reply χ ε α) : Prop
  | free (hkey : O.key P.world.store = none) (hmade : ∀ y, ¬ O.Made P.world.store y)
      (hcalls : ∀ c ∈ P.calls, (O.phase c.2.trace).idle)
  | busy (x : ν) (hkey : O.key P.world.store = none) (hmade : ∀ y, O.Made P.world.store y ↔ y = x)
      (hmaker : ∃ c ∈ P.calls, c.2.prog.result = none ∧ O.phase c.2.trace = .made x)
      (hcalls : ∀ c ∈ P.calls, (O.phase c.2.trace).idle ∨
        c.2.prog.result = none ∧ O.phase c.2.trace = .made x)
  | done (x : ν) (hkey : O.key P.world.store = some x) (hmade : ∀ y, O.Made P.world.store y ↔ y = x)
      (hcalls : ∀ c ∈ P.calls, ¬ O.Waits c ∧ ((O.phase c.2.trace).idle ∨
        O.phase c.2.trace = .stored x ∨ O.phase c.2.trace = .found x))

variable {O} {M : Semantics σ ρ Call Reply χ μ} {P P' : Pool κ σ ρ Call Reply χ ε α}

theorem Move.of_eq {p p' q q' : Phase ν} {s s' : σ} (h : O.Move p s q s') (hp : p' = p) (hq : q' = q) :
    O.Move p' s q' s' := by
  rw [hp, hq]
  exact h

/-- At most one thing is made. -/
theorem Settled.unique (h : O.Settled P) {x y : ν} (hx : O.Made P.world.store x)
    (hy : O.Made P.world.store y) : x = y := by
  cases h with
  | free _ hmade _ => exact absurd hx (hmade x)
  | busy z _ hmade _ _ => exact ((hmade x).mp hx).trans ((hmade y).mp hy).symm
  | done z _ hmade _ => exact ((hmade x).mp hx).trans ((hmade y).mp hy).symm

/-- What a call has stored or found is what was made. -/
theorem Settled.made (h : O.Settled P) {c : κ × Thread σ ρ Call Reply ε α} (hc : c ∈ P.calls) {x : ν}
    (hx : O.phase c.2.trace = .stored x ∨ O.phase c.2.trace = .found x) :
    O.Made P.world.store x := by
  have hidle : ¬ (O.phase c.2.trace).idle := by
    rcases hx with hx | hx <;> simp [hx, Phase.idle]
  cases h with
  | free _ _ hcalls => exact absurd (hcalls c hc) hidle
  | busy z _ _ _ hcalls =>
      obtain ⟨-, hmade⟩ := (hcalls c hc).resolve_left hidle
      rcases hx with hx | hx <;> rw [hx] at hmade <;> cases hmade
  | done z _ hmade hcalls =>
      refine (hmade x).mpr ?_
      rcases (hcalls c hc).2.resolve_left hidle with hz | hz <;> rcases hx with hx | hx <;>
        rw [hx] at hz <;> cases hz <;> rfl

/-! ## Steps -/

/-- A call of a pool after a step of one of them: that one, or another one. -/
theorem mem_set_erase {calls : List (κ × Thread σ ρ Call Reply ε α)} {i : ℕ}
    {c d : κ × Thread σ ρ Call Reply ε α} (h : d ∈ calls.set i c) : d = c ∨ d ∈ calls.eraseIdx i := by
  obtain ⟨j, hj⟩ := List.mem_iff_getElem?.mp h
  by_cases hij : j = i
  · subst hij
    rw [List.getElem?_set_self'] at hj
    obtain ⟨-, -, rfl⟩ := Option.map_eq_some_iff.mp hj
    exact .inl rfl
  · rw [List.getElem?_set_ne (Ne.symm hij)] at hj
    exact .inr (List.mem_eraseIdx_iff_getElem?.mpr ⟨j, hij, hj⟩)

/-- A call that is not the one at the place stays when that one is removed. -/
theorem mem_erase_of_ne {calls : List (κ × Thread σ ρ Call Reply ε α)} {i : ℕ}
    {c d : κ × Thread σ ρ Call Reply ε α} (hi : calls[i]? = some c) (hd : d ∈ calls) (hne : d ≠ c) :
    d ∈ calls.eraseIdx i := by
  obtain ⟨j, hj⟩ := List.mem_iff_getElem?.mp hd
  refine List.mem_eraseIdx_iff_getElem?.mpr ⟨j, fun hij => hne ?_, hj⟩
  rw [hij, hi] at hj
  exact (Option.some.inj hj).symm

theorem mem_set_of_erase {calls : List (κ × Thread σ ρ Call Reply ε α)} {i : ℕ}
    {c d : κ × Thread σ ρ Call Reply ε α} (hd : d ∈ calls.eraseIdx i) : d ∈ calls.set i c := by
  obtain ⟨j, hij, hj⟩ := List.mem_eraseIdx_iff_getElem?.mp hd
  refine List.mem_iff_getElem?.mpr ⟨j, ?_⟩
  rwa [List.getElem?_set_ne (Ne.symm hij)]

/-- What holds of the call that steps and of all others. -/
theorem forall_mem_set {calls : List (κ × Thread σ ρ Call Reply ε α)} {i : ℕ}
    {c : κ × Thread σ ρ Call Reply ε α} {p : κ × Thread σ ρ Call Reply ε α → Prop} (hc : p c)
    (h : ∀ d ∈ calls.eraseIdx i, p d) : ∀ d ∈ calls.set i c, p d := fun d hd =>
  (mem_set_erase hd).elim (fun heq => heq ▸ hc) (h d)

section Act

variable {i : ℕ} {b : Act μ} {q : κ} {t t' : Thread σ ρ Call Reply ε α} {w' : World σ χ}

/-- A step after which the same is stored and made. -/
theorem Settled.same (h : O.Settled P) (hi : P.calls[i]? = some (q, t))
    (hsame : O.Same P.world.store w'.store)
    (hidle : O.key P.world.store = none → (O.phase t.trace).idle → (O.phase t'.trace).idle)
    (hmade : ∀ x, O.phase t.trace = .made x → t'.prog.result = none ∧ O.phase t'.trace = .made x)
    (hdone : ∀ x, O.key P.world.store = some x → ((O.phase t.trace).idle ∨
      O.phase t.trace = .stored x ∨ O.phase t.trace = .found x) → ¬ (O.phase t.trace).waits →
      ¬ (O.phase t'.trace).waits ∧ ((O.phase t'.trace).idle ∨ O.phase t'.trace = .stored x ∨
        O.phase t'.trace = .found x))
    (hlive : t.prog.result = none) : O.Settled ⟨P.calls.set i (q, t'), w'⟩ := by
  have hself : (q, t) ∈ P.calls := List.mem_of_getElem? hi
  have hrest : ∀ d ∈ P.calls.eraseIdx i, d ∈ P.calls := fun d hd => List.mem_of_mem_eraseIdx hd
  cases h with
  | free hkey hnone hcalls =>
      refine .free (hsame.1.trans hkey) (fun y hy => hnone y ((hsame.2 y).mp hy)) ?_
      exact forall_mem_set (hidle hkey (hcalls _ hself)) fun d hd => hcalls d (hrest d hd)
  | busy x hkey hone hmaker hcalls =>
      refine .busy x (hsame.1.trans hkey) (fun y => (hsame.2 y).trans (hone y)) ?_ ?_
      · obtain ⟨c, hc, hcnone, hcmade⟩ := hmaker
        by_cases hct : c = (q, t)
        · subst hct
          exact ⟨_, List.mem_set (List.getElem?_eq_some_iff.mp hi).1 _, hmade x hcmade⟩
        · exact ⟨c, mem_set_of_erase (mem_erase_of_ne hi hc hct), hcnone, hcmade⟩
      · refine forall_mem_set ?_ fun d hd => hcalls d (hrest d hd)
        rcases hcalls _ hself with hp | ⟨-, hp⟩
        · exact .inl (hidle hkey hp)
        · exact .inr (hmade x hp)
  | done x hkey hone hcalls =>
      refine .done x (hsame.1.trans hkey) (fun y => (hsame.2 y).trans (hone y)) ?_
      refine forall_mem_set ?_ fun d hd => hcalls d (hrest d hd)
      obtain ⟨hwaits, hp⟩ := hcalls _ hself
      obtain ⟨hwaits', hp'⟩ := hdone x hkey hp fun hw => hwaits ⟨hlive, hw⟩
      exact ⟨fun hw => hwaits' hw.2, hp'⟩

/-- A step of a call keeps the pool settled. -/
theorem Settled.act (h : O.Settled P) (hi : P.calls[i]? = some (q, t))
    (hC : O.Single M P (.act i b)) (hs : Thread.step M (t, P.world) b = some (t', w'))
    (hmove : O.Move (O.phase t.trace) P.world.store (O.phase t'.trace) w'.store) :
    O.Settled ⟨P.calls.set i (q, t'), w'⟩ := by
  have hlive : t.prog.result = none := Thread.result_of_step hs
  have hself : (q, t) ∈ P.calls := List.mem_of_getElem? hi
  have hrest : ∀ d ∈ P.calls.eraseIdx i, d ∈ P.calls := fun d hd => List.mem_of_mem_eraseIdx hd
  obtain ⟨halone, hends⟩ := hC _ hi _ hs
  dsimp only at halone hends
  have hnone : ∀ x, O.phase t'.trace = .made x → t'.prog.result = none := fun x hp =>
    Option.not_isSome_iff_eq_none.mp fun hsome => hends hsome (by rw [hp]; rfl)
  generalize hp : O.phase t.trace = p, hp' : O.phase t'.trace = p', hs₀ : P.world.store = s₀,
    hs₁ : w'.store = s₁ at hmove
  cases hmove with
  | stay hsame =>
      rw [← hs₀, ← hs₁] at hsame
      rw [← hp] at hp'
      refine h.same hi hsame (fun _ => hp' ▸ id) (fun x hx => ?_) (fun x _ hx hw => ?_) hlive
      · exact ⟨hnone x (hp'.trans hx), hp'.trans hx⟩
      · rw [hp']
        exact ⟨hw, hx⟩
  | lose hsame =>
      rw [← hs₀, ← hs₁] at hsame
      refine h.same hi hsame (fun _ _ => by rw [hp']; rfl) (fun x hx => ?_) (fun x _ _ _ => ?_) hlive
      · rw [hp] at hx
        cases hx
      · rw [hp']
        exact ⟨by simp [Phase.waits], .inl rfl⟩
  | miss hsame hkey =>
      rw [← hs₀, ← hs₁] at hsame
      rw [← hs₀] at hkey
      refine h.same hi hsame (fun _ _ => by rw [hp']; rfl) (fun x hx => ?_) (fun x hx _ _ => ?_) hlive
      · rw [hp] at hx
        cases hx
      · rw [hkey] at hx
        cases hx
  | @find _ _ x hsame hkey =>
      rw [← hs₀, ← hs₁] at hsame
      rw [← hs₀] at hkey
      refine h.same hi hsame (fun hx _ => ?_) (fun y hy => ?_) (fun y hy _ _ => ?_) hlive
      · rw [hkey] at hx
        cases hx
      · rw [hp] at hy
        cases hy
      · obtain rfl := Option.some.inj (hkey.symm.trans hy)
        rw [hp']
        exact ⟨by simp [Phase.waits], .inr (.inr rfl)⟩
  | make x hkey hmade =>
      rw [← hs₀, ← hs₁] at hkey hmade
      have hquiet := halone (by rw [hp]; rfl) (by rw [hp, hp']; simp)
      cases h with
      | free hfree hnot hcalls =>
          refine .busy x (hkey.trans hfree) (fun y => ?_) ?_ ?_
          · exact (hmade y).trans (or_iff_right (hnot y))
          · exact ⟨_, List.mem_set (List.getElem?_eq_some_iff.mp hi).1 _, hnone x hp', hp'⟩
          · exact forall_mem_set (.inr ⟨hnone x hp', hp'⟩) fun d hd => .inl (hcalls d (hrest d hd))
      | busy y _ _ hmaker _ =>
          obtain ⟨c, hc, hcnone, hcmade⟩ := hmaker
          have hct : c ≠ (q, t) := by
            rintro rfl
            rw [hp] at hcmade
            cases hcmade
          exact absurd ⟨hcnone, by rw [hcmade]; rfl⟩ (hquiet c (mem_erase_of_ne hi hc hct))
      | done y _ _ hcalls => exact absurd ⟨hlive, by rw [hp]; rfl⟩ (hcalls _ hself).1
  | @store _ _ x hkey hmade =>
      rw [← hs₁] at hkey
      rw [← hs₀, ← hs₁] at hmade
      have hquiet := halone (by rw [hp]; rfl) (by rw [hp, hp']; simp)
      cases h with
      | free _ _ hcalls =>
          have hidle := hcalls _ hself
          rw [hp] at hidle
          cases hidle
      | busy y _ hone _ hcalls =>
          rcases hcalls _ hself with hidle | ⟨-, hy⟩
          · rw [hp] at hidle
            cases hidle
          · rw [hp] at hy
            cases hy
            refine .done x hkey (fun y => (hmade y).trans (hone y)) ?_
            refine forall_mem_set ⟨fun hw => ?_, .inr (.inl hp')⟩ fun d hd => ⟨hquiet d hd, .inl ?_⟩
            · have hwaits := hw.2
              rw [hp'] at hwaits
              cases hwaits
            · rcases hcalls d (hrest d hd) with hidle | ⟨hdnone, hdmade⟩
              · exact hidle
              · exact absurd ⟨hdnone, by rw [hdmade]; rfl⟩ (hquiet d hd)
      | done y _ _ hcalls => exact absurd ⟨hlive, by rw [hp]; rfl⟩ (hcalls _ hself).1

end Act

/-- A call that is lost. -/
theorem Settled.crash {i : ℕ} {c : κ × Thread σ ρ Call Reply ε α} (h : O.Settled P)
    (hi : P.calls[i]? = some c) (hC : O.Single M P (.crash i)) :
    O.Settled ⟨P.calls.eraseIdx i, P.world⟩ := by
  have hrest : ∀ d ∈ P.calls.eraseIdx i, d ∈ P.calls := fun d hd => List.mem_of_mem_eraseIdx hd
  cases h with
  | free hkey hmade hcalls => exact .free hkey hmade fun d hd => hcalls d (hrest d hd)
  | busy x hkey hmade hmaker hcalls =>
      obtain ⟨d, hd, hdnone, hdmade⟩ := hmaker
      have hne : d ≠ c := by
        rintro rfl
        exact hC _ hi (by rw [hdmade]; rfl)
      exact .busy x hkey hmade ⟨d, mem_erase_of_ne hi hd hne, hdnone, hdmade⟩
        fun e he => hcalls e (hrest e he)
  | done x hkey hmade hcalls => exact .done x hkey hmade fun d hd => hcalls d (hrest d hd)

/-- A call that arrives. -/
theorem Settled.arrive {q : κ} {t : Thread σ ρ Call Reply ε α} (h : O.Settled P)
    (ht : t.trace = []) : O.Settled ⟨P.calls ++ [(q, t)], P.world⟩ := by
  have hp : O.phase t.trace = .fresh := by rw [ht, O.phase_nil]
  have hadd : ∀ {p : κ × Thread σ ρ Call Reply ε α → Prop}, (∀ d ∈ P.calls, p d) → p (q, t) →
      ∀ d ∈ P.calls ++ [(q, t)], p d := fun h hq =>
    List.forall_mem_append.mpr ⟨h, List.forall_mem_singleton.mpr hq⟩
  cases h with
  | free hkey hmade hcalls => exact .free hkey hmade (hadd hcalls (by rw [hp]; rfl))
  | busy x hkey hmade hmaker hcalls =>
      obtain ⟨d, hd, hrest⟩ := hmaker
      exact .busy x hkey hmade ⟨d, List.mem_append_left _ hd, hrest⟩
        (hadd hcalls (.inl (by rw [hp]; rfl)))
  | done x hkey hmade hcalls =>
      refine .done x hkey hmade (hadd hcalls ⟨fun hw => ?_, .inl (by rw [hp]; rfl)⟩)
      have hwaits := hw.2
      rw [hp] at hwaits
      cases hwaits

/-! ## How a call goes on -/

/-- The store grows. -/
def rely (O : Once σ ρ Call Reply ν) : Rely σ ρ Call Reply χ := fun _ w w' => O.Grows w.store w'.store

/-- Every step is a move. -/
def guarantee (O : Once σ ρ Call Reply ν) : Guarantee σ ρ Call Reply χ := fun tr w tr' w' =>
  O.Grows w.store w'.store ∧ O.Move (O.phase tr) w.store (O.phase tr') w'.store

/-- How `p` goes on. -/
def Runs (O : Once σ ρ Call Reply ν) (M : Semantics σ ρ Call Reply χ μ) (p : Prog σ ρ Call Reply ε α)
    (tx : Tx ρ) (tr : Trace ρ Call Reply) (w : World σ χ)
    (Q : α → Tx ρ → Trace ρ Call Reply → World σ χ → Prop) : Prop :=
  Yields M O.rely O.guarantee p tx tr w Q

/-- The call has begun, and it is as far as `p`; the store has grown from `s`. -/
structure At (O : Once σ ρ Call Reply ν) (s : σ) (p : Phase ν) (tr : Trace ρ Call Reply)
    (w : World σ χ) : Prop where
  begun : tr ≠ []
  grows : O.Grows s w.store
  phase : O.phase tr = p

theorem Same.refl (s : σ) : O.Same s s := ⟨rfl, fun _ => Iff.rfl⟩

/-- A step that commits nothing, after the first one. -/
theorem guarantee_of_still {e : Event ρ Call Reply} {tr : Trace ρ Call Reply} {w w' : World σ χ}
    (hne : tr ≠ []) (he : ∀ ws, e = .committed ws → ws = []) (hstore : w'.store = w.store) :
    O.guarantee tr w (e :: tr) w' := by
  unfold guarantee
  rw [hstore, O.phase_cons e tr hne he]
  exact ⟨O.grows_refl _, .stay (.refl _)⟩

/-- How far a call is lasts. -/
theorem lasts_at (O : Once σ ρ Call Reply ν) {s : σ} {p : Phase ν} :
    Lasts (χ := χ) O.rely O.guarantee (O.At s p) where
  wait h hw := ⟨h.begun, O.grows_trans _ _ _ h.grows hw, h.phase⟩
  event h he hstore := by
    refine ⟨guarantee_of_still h.begun (fun ws hws => absurd hws (he ws)) hstore, List.cons_ne_nil _ _,
      hstore ▸ h.grows, ?_⟩
    rw [O.phase_cons _ _ h.begun fun ws hws => absurd hws (he ws)]
    exact h.phase
  read rows tr w h := by
    have hran : O.phase (.ran rows :: tr) = O.phase tr := O.phase_cons _ _ h.begun (by simp)
    have hphase : O.phase (.committed [] :: .ran rows :: tr) = O.phase tr := by
      rw [O.phase_cons _ _ (List.cons_ne_nil _ _) (by simp), hran]
    refine ⟨⟨O.grows_refl _, ?_⟩, List.cons_ne_nil _ _, h.grows, hphase.trans h.phase⟩
    rw [hphase]
    exact .stay (.refl _)

/-- What is there now counts from here on. -/
theorem At.here {s : σ} {p : Phase ν} {tr : Trace ρ Call Reply} {w : World σ χ} (h : O.At s p tr w) :
    O.At w.store p tr w := ⟨h.begun, O.grows_refl _, h.phase⟩

/-- A statement outside of a transaction. -/
theorem runs_query {st : Stmt σ ρ β} {k : Option β → Prog σ ρ Call Reply ε α} {s : σ}
    {tr : Trace ρ Call Reply} {w : World σ χ} {Q : α → Tx ρ → Trace ρ Call Reply → World σ χ → Prop}
    (h : O.Grows s w.store)
    (hok : ∀ (w₁ : World σ χ) e, O.Grows s w₁.store → st w₁.store = some e →
      O.Grows w₁.store (M.applyAll w₁.store e.writes) ∧
      O.Move (O.phase tr) w₁.store (O.phase (.committed e.writes :: .ran e.read :: tr))
        (M.applyAll w₁.store e.writes) ∧
      O.Runs M (k (some e.answer)) .idle (.committed e.writes :: .ran e.read :: tr)
        { w₁ with store := M.applyAll w₁.store e.writes } Q)
    (hfail : ∀ w₁ : World σ χ, O.Grows s w₁.store → O.Runs M (k none) .idle (.failed :: tr) w₁ Q) :
    O.Runs M (.stmt st k) .idle tr w Q := by
  intro w₁ hw
  have h₁ := O.grows_trans _ _ _ h hw
  refine ⟨fun e he => ?_, hfail w₁ h₁⟩
  obtain ⟨hgrows, hmove, hrest⟩ := hok w₁ e h₁ he
  exact ⟨⟨hgrows, hmove⟩, hrest⟩

/-- The commit of the thing. -/
theorem runs_commit {k : Bool → Prog σ ρ Call Reply ε α} {s : σ} {p : Phase ν} {ws : List (Write ρ)}
    {tr : Trace ρ Call Reply} {w : World σ χ} {Q : α → Tx ρ → Trace ρ Call Reply → World σ χ → Prop}
    (h : O.At s p tr w)
    (hok : ∀ w₁ : World σ χ, O.At s p tr w₁ → O.Grows w₁.store (M.applyAll w₁.store ws) ∧
      O.Move p w₁.store (O.phase (.committed ws :: tr)) (M.applyAll w₁.store ws) ∧
      O.Runs M (k true) .idle (.committed ws :: tr)
        { w₁ with store := M.applyAll w₁.store ws } Q)
    (hfail : ∀ w₁ : World σ χ, O.At s p (.failed :: tr) w₁ → O.Runs M (k false) .idle (.failed :: tr) w₁ Q) :
    O.Runs M (.commit k) (.active ws) tr w Q := by
  refine O.lasts_at.commit h (fun w₁ h₁ => ?_) hfail
  obtain ⟨hgrows, hmove, hrest⟩ := hok w₁ h₁
  rw [← h₁.phase] at hmove
  exact ⟨⟨hgrows, hmove⟩, hrest⟩

/-! ## Runs -/

variable {handler : κ → Prog σ ρ Call Reply ε α} {w : World σ χ} {turns : List (Turn κ μ)}
  {C : Pool κ σ ρ Call Reply χ ε α → Turn κ μ → Prop}
  {Q : κ → α → Tx ρ → Trace ρ Call Reply → World σ χ → Prop}

/-- A step that fails. -/
theorem move_failed (tr : Trace ρ Call Reply) (s : σ) :
    O.Move (O.phase tr) s (O.phase (.failed :: tr)) s := by
  by_cases hne : tr = []
  · rw [hne, O.phase_nil, O.phase_failed]
    exact .lose (.refl s)
  · rw [O.phase_cons _ _ hne (by simp)]
    exact .stay (.refl s)

/-- **One thing is made.**  Calls whose steps are moves keep the pool settled in every run in which
things are made and stored one at a time, and they return what they are to return. -/
theorem settled
    (hspec : ∀ P q, C P (.arrive q) → ∀ w', O.Grows w.store w'.store →
      O.Runs M (handler q) .idle [] w' (Q q))
    (hrun : Machine.ExecWhile (Pool.step M handler) (fun P a => O.Single M P a ∧ C P a)
      (Pool.idle w) turns P)
    (hkey : O.key w.store = none) (hmade : ∀ x, ¬ O.Made w.store x) :
    O.Settled P ∧ ∀ c ∈ P.calls, ∀ a, c.2.prog.result = some (.ok a) →
      ∃ tx w', Q c.1 a tx c.2.trace w' := by
  have hmeets := fun {P turns} (hrun : Machine.ExecWhile (Pool.step M handler)
      (fun P a => O.Single M P a ∧ C P a) (Pool.idle w) turns P) =>
    (Pool.invariant (J := fun w' => O.Grows w.store w'.store) (R := O.rely)
      (G := fun _ => O.guarantee) (Q := fun q r tx tr w => ∀ a, r = .ok a → Q q a tx tr w)
      (fun _ w => O.grows_refl w.store) (fun _ _ _ _ => O.grows_trans _ _ _)
      (fun _ _ _ _ _ _ hg _ => hg.1) (fun _ _ _ _ _ hg hw => O.grows_trans _ _ _ hw hg.1)
      (fun P q hC => hspec P q hC.2) hrun rfl (O.grows_refl _)).2
  refine ⟨?_, fun c hc a ha => ?_⟩
  · induction hrun with
    | nil => exact .free hkey hmade (List.forall_mem_nil _)
    | snoc hrun hC hs ih =>
        rcases Pool.step_cases hs with ⟨q, rfl, rfl⟩ | ⟨i, b, q, t, t', w', rfl, hi, hst, rfl⟩ |
          ⟨i, c, rfl, hi, -, rfl⟩
        · exact ih.arrive rfl
        · refine ih.act hi hC.1 hst ?_
          obtain ⟨w₀, hw₀, hm⟩ := hmeets hrun _ (List.mem_of_getElem? hi)
          rcases (hm.step (hw₀ (Thread.result_of_step hst)) hst).2 with ⟨htr | htr, rfl⟩ | hg
          · rw [htr]
            exact .stay (.refl _)
          · rw [htr]
            exact move_failed _ _
          · exact hg.2
        · exact ih.crash hi hC.1
  · obtain ⟨w', -, hm⟩ := hmeets hrun c hc
    exact ⟨c.2.tx, w', hm.post ha a rfl⟩

/-- What a call has that has returned and is not idle. -/
theorem Settled.returned (h : O.Settled P) {c : κ × Thread σ ρ Call Reply ε α} (hc : c ∈ P.calls)
    (hsome : c.2.prog.result.isSome) (hidle : ¬ (O.phase c.2.trace).idle) :
    ∃ x, O.phase c.2.trace = .stored x ∨ O.phase c.2.trace = .found x := by
  cases h with
  | free _ _ hcalls => exact absurd (hcalls c hc) hidle
  | busy x _ _ _ hcalls =>
      obtain ⟨hnone, -⟩ := (hcalls c hc).resolve_left hidle
      rw [hnone] at hsome
      cases hsome
  | done x _ _ hcalls => exact ⟨x, (hcalls c hc).2.resolve_left hidle⟩

end Once

end Program
