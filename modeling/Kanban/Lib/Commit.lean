import Kanban.Lib.Pool

/-!
# What a program commits

A program changes the store only by its commits: a statement outside of a transaction, or the
commit of a transaction.  `Commits M Good` says of a step that it commits only what is `Good`
for the trace before it, and changes the store in no other way.

`Runs M Good p tx tr B` says that `p` makes only such steps when it goes on from the
transaction `tx` and the trace `tr`, and that `B` holds when it returns a value.  Nothing is
assumed of the other programs: between two steps they may do anything to the store.

## Main definitions

* `Anything` — no condition on the interference.
* `Commits`, `Runs` — the judgement, with a rule for each construct.
* `Saw` — a record that a statement has read.
* `Trace.seenBy`, `putsBy`, `delsBy` — the records of one kind in a trace and in some writes.
* `Pool.committed`, `Pool.store_invariant` — a step of a pool of such programs, and its runs.
* `Pool.commitOf`, `Pool.logStep` — the commit of a turn, and a step that logs it.
* `Trace.writes` — everything a trace has committed.
-/

namespace Program

variable {σ ρ Call : Type} {Reply : Call → Type} {ε α β χ μ κ : Type}

/-- No condition on the interference. -/
abbrev Anything : Rely σ ρ Call Reply χ := fun _ _ _ => True

/-- A statement of the trace has read the record. -/
def Saw (tr : Trace ρ Call Reply) (r : ρ) : Prop := ∃ rows, Event.ran rows ∈ tr ∧ r ∈ rows

theorem Saw.cons {tr : Trace ρ Call Reply} {r : ρ} {e : Event ρ Call Reply} (h : Saw tr r) :
    Saw (e :: tr) r := by
  obtain ⟨rows, hrows, hr⟩ := h
  exact ⟨rows, List.mem_cons_of_mem _ hrows, hr⟩

theorem saw_ran {tr : Trace ρ Call Reply} {rows : List ρ} {r : ρ} (h : r ∈ rows) :
    Saw (.ran rows :: tr) r := ⟨rows, List.mem_cons_self, h⟩

theorem Saw.of_suffix {tr tr' : Trace ρ Call Reply} {r : ρ} (h : Saw tr r) (hs : tr <:+ tr') :
    Saw tr' r := by
  obtain ⟨rows, hrows, hr⟩ := h
  exact ⟨rows, hs.subset hrows, hr⟩

@[simp] theorem saw_ran_cons {tr : Trace ρ Call Reply} {r : ρ} {rows : List ρ} :
    Saw (.ran rows :: tr) r ↔ r ∈ rows ∨ Saw tr r := by
  constructor
  · rintro ⟨rows', hrows, hr⟩
    rcases List.mem_cons.mp hrows with heq | hrows
    · cases heq
      exact .inl hr
    · exact .inr ⟨rows', hrows, hr⟩
  · rintro (hr | h)
    · exact saw_ran hr
    · exact h.cons

/-- Other events read nothing. -/
theorem saw_cons {tr : Trace ρ Call Reply} {r : ρ} {e : Event ρ Call Reply}
    (he : ∀ rows, e ≠ .ran rows) : Saw (e :: tr) r ↔ Saw tr r := by
  refine ⟨?_, Saw.cons⟩
  rintro ⟨rows, hrows, hr⟩
  rcases List.mem_cons.mp hrows with rfl | hrows
  · exact absurd rfl (he rows)
  · exact ⟨rows, hrows, hr⟩

@[simp] theorem saw_committed_cons {tr : Trace ρ Call Reply} {r : ρ} {ws : List (Write ρ)} :
    Saw (.committed ws :: tr) r ↔ Saw tr r := saw_cons nofun

@[simp] theorem saw_called_cons {tr : Trace ρ Call Reply} {r : ρ} {c : Call} {answer : Reply c} :
    Saw (.called c answer :: tr) r ↔ Saw tr r := saw_cons nofun

@[simp] theorem saw_failed_cons {tr : Trace ρ Call Reply} {r : ρ} :
    Saw (.failed :: tr) r ↔ Saw tr r := saw_cons nofun

/-- The records that the statements of a trace have read. -/
def Trace.seen (tr : Trace ρ Call Reply) : List ρ :=
  tr.flatMap fun
    | .ran rows => rows
    | _ => []

theorem Trace.mem_seen {tr : Trace ρ Call Reply} {r : ρ} : r ∈ tr.seen ↔ Saw tr r := by
  unfold seen
  rw [List.mem_flatMap]
  constructor
  · rintro ⟨e, he, hr⟩
    cases e with
    | ran rows => exact ⟨rows, he, hr⟩
    | committed ws => cases hr
    | called c r => cases hr
    | failed => cases hr
  · rintro ⟨rows, hrows, hr⟩
    exact ⟨.ran rows, hrows, hr⟩

section Kinds

variable {τ : Type} {get : ρ → Option τ} {record : τ → ρ} {x : τ}

/-- The records of one kind that a trace has read. -/
def Trace.seenBy (get : ρ → Option τ) (tr : Trace ρ Call Reply) : List τ := tr.seen.filterMap get

/-- The records of one kind that the writes put. -/
def putsBy (get : ρ → Option τ) (ws : List (Write ρ)) : List τ :=
  ws.filterMap fun
    | .put r => get r
    | .del _ => none

theorem putsBy_append {get : ρ → Option τ} (ws ws' : List (Write ρ)) :
    putsBy get (ws ++ ws') = putsBy get ws ++ putsBy get ws' := List.filterMap_append

/-- The records of one kind that the writes delete. -/
def delsBy (get : ρ → Option τ) (ws : List (Write ρ)) : List τ :=
  ws.filterMap fun
    | .put _ => none
    | .del r => get r

theorem Trace.mem_seenBy {tr : Trace ρ Call Reply} (hget : ∀ r x, get r = some x ↔ r = record x) :
    x ∈ Trace.seenBy get tr ↔ Saw tr (record x) := by
  rw [← Trace.mem_seen, seenBy, List.mem_filterMap]
  constructor
  · rintro ⟨r, hr, hx⟩
    rwa [← (hget r x).mp hx]
  · exact fun h => ⟨_, h, (hget _ x).mpr rfl⟩

theorem mem_putsBy {ws : List (Write ρ)} (hget : ∀ r x, get r = some x ↔ r = record x) :
    x ∈ putsBy get ws ↔ .put (record x) ∈ ws := by
  rw [putsBy, List.mem_filterMap]
  constructor
  · rintro ⟨a, ha, hx⟩
    cases a with
    | put r => rwa [← (hget r x).mp hx]
    | del r => cases hx
  · exact fun h => ⟨_, h, (hget _ x).mpr rfl⟩

theorem mem_delsBy {ws : List (Write ρ)} (hget : ∀ r x, get r = some x ↔ r = record x) :
    x ∈ delsBy get ws ↔ .del (record x) ∈ ws := by
  rw [delsBy, List.mem_filterMap]
  constructor
  · rintro ⟨a, ha, hx⟩
    cases a with
    | put r => cases hx
    | del r => rwa [← (hget r x).mp hx]
  · exact fun h => ⟨_, h, (hget _ x).mpr rfl⟩

end Kinds

/-- A condition on a commit: the trace before it, and the writes. -/
abbrev Commitment (ρ Call : Type) (Reply : Call → Type) := Trace ρ Call Reply → List (Write ρ) → Prop

/-- A step that commits nothing, or something good. -/
def Commits (M : Semantics σ ρ Call Reply χ μ) (Good : Commitment ρ Call Reply) :
    Guarantee σ ρ Call Reply χ := fun tr w tr' w' =>
  (∃ e, tr' = e :: tr ∧ (∀ ws, e ≠ .committed ws) ∧ w'.store = w.store) ∨
  ∃ ws past, tr' = .committed ws :: past ∧ (past = tr ∨ ∃ read, past = .ran read :: tr) ∧
    Good past ws ∧ w'.store = M.applyAll w.store ws

/-- `p` commits only what is good, and returns a value only in `B`. -/
def Runs (M : Semantics σ ρ Call Reply χ μ) (Good : Commitment ρ Call Reply)
    (p : Prog σ ρ Call Reply ε α) (tx : Tx ρ) (tr : Trace ρ Call Reply)
    (B : α → Tx ρ → Trace ρ Call Reply → Prop) : Prop :=
  ∀ w, Ensures M Anything (Commits M Good) (fun r tx tr _ => ∀ a, r = .ok a → B a tx tr) p tx tr w

section Rules

variable {M : Semantics σ ρ Call Reply χ μ} {Good : Commitment ρ Call Reply} {tx : Tx ρ}
  {tr : Trace ρ Call Reply} {B : α → Tx ρ → Trace ρ Call Reply → Prop}

theorem runs_pure {a : α} (h : B a tx tr) : Runs M Good (.pure a : Prog σ ρ Call Reply ε α) tx tr B := by
  rintro w b ⟨⟩
  exact h

theorem runs_fail {e : ε} : Runs M Good (.fail e : Prog σ ρ Call Reply ε α) tx tr B := by
  rintro w b ⟨⟩

theorem runs_bind {C : β → Tx ρ → Trace ρ Call Reply → Prop} {p : Prog σ ρ Call Reply ε α}
    {f : α → Prog σ ρ Call Reply ε β}
    (h : Runs M Good p tx tr fun a tx tr => Runs M Good (f a) tx tr C) :
    Runs M Good (p.bind f) tx tr C := by
  intro w
  rw [ensures_bind]
  refine (h w).post_mono ?_
  intro r tx tr w hr
  cases r with
  | ok a => exact hr a rfl w
  | error e => exact fun _ he => by cases he

theorem Runs.mono {B' : α → Tx ρ → Trace ρ Call Reply → Prop} {p : Prog σ ρ Call Reply ε α}
    (h : Runs M Good p tx tr B) (hB : ∀ a tx tr, B a tx tr → B' a tx tr) :
    Runs M Good p tx tr B' := by
  intro w
  refine (h w).post_mono ?_
  intro r tx tr _ hr a ha
  exact hB a tx tr (hr a ha)

/-- A weaker condition on the commits. -/
theorem Runs.imp {Good' : Commitment ρ Call Reply} {p : Prog σ ρ Call Reply ε α}
    (h : Runs M Good p tx tr B) (hgood : ∀ tr ws, Good tr ws → Good' tr ws) :
    Runs M Good' p tx tr B := by
  intro w
  refine (h w).mono (fun _ _ _ h => h) ?_ fun _ _ _ _ h => h
  rintro tr w tr' w' (hstep | ⟨ws, past, htr, hpast, hg, happly⟩)
  · exact .inl hstep
  · exact .inr ⟨ws, past, htr, hpast, hgood _ _ hg, happly⟩

/-- A statement outside of a transaction is committed at once. -/
theorem runs_stmt_idle {s : Stmt σ ρ β} {k : Option β → Prog σ ρ Call Reply ε α}
    (hok : ∀ db e, s db = some e → Good (.ran e.read :: tr) e.writes ∧
      Runs M Good (k (some e.answer)) .idle (.committed e.writes :: .ran e.read :: tr) B)
    (hfail : Runs M Good (k none) .idle (.failed :: tr) B) :
    Runs M Good (.stmt s k) .idle tr B := by
  intro w w₁ _
  refine ⟨fun e he => ?_, hfail w₁⟩
  obtain ⟨hgood, hk⟩ := hok w₁.store e he
  exact ⟨.inr ⟨_, _, rfl, .inr ⟨_, rfl⟩, hgood, rfl⟩, hk _⟩

/-- The writes of a statement in a transaction wait. -/
theorem runs_stmt_active {s : Stmt σ ρ β} {k : Option β → Prog σ ρ Call Reply ε α}
    {ws : List (Write ρ)}
    (hok : ∀ db e, s db = some e →
      Runs M Good (k (some e.answer)) (.active (ws ++ e.writes)) (.ran e.read :: tr) B)
    (hfail : Runs M Good (k none) .aborted (.failed :: tr) B) :
    Runs M Good (.stmt s k) (.active ws) tr B := by
  intro w w₁ _
  refine ⟨fun e he => ?_, hfail w₁⟩
  exact ⟨.inl ⟨_, rfl, fun _ => nofun, rfl⟩, hok _ e he _⟩

/-- An aborted transaction runs no statement. -/
theorem runs_stmt_aborted {s : Stmt σ ρ β} {k : Option β → Prog σ ρ Call Reply ε α}
    (hfail : Runs M Good (k none) .aborted (.failed :: tr) B) :
    Runs M Good (.stmt s k) .aborted tr B := by
  intro w w₁ _
  exact ⟨fun e he => absurd he (by simp), hfail w₁⟩

theorem runs_begin {k : Bool → Prog σ ρ Call Reply ε α}
    (hok : Runs M Good (k true) (.active []) tr B)
    (hfail : Runs M Good (k false) .idle (.failed :: tr) B) : Runs M Good (.begin k) tx tr B :=
  fun _ w₁ _ => ⟨hok w₁, hfail w₁⟩

theorem runs_commit {k : Bool → Prog σ ρ Call Reply ε α} {ws : List (Write ρ)}
    (hgood : Good tr ws) (hok : Runs M Good (k true) .idle (.committed ws :: tr) B)
    (hfail : Runs M Good (k false) .idle (.failed :: tr) B) :
    Runs M Good (.commit k) (.active ws) tr B :=
  fun _ w₁ _ => ⟨⟨.inr ⟨_, _, rfl, .inl rfl, hgood, rfl⟩, hok _⟩, hfail w₁⟩

theorem runs_call {c : Call} {k : Reply c → Prog σ ρ Call Reply ε α}
    (h : ∀ r, Runs M Good (k r) tx (.called c r :: tr) B) : Runs M Good (.call c k) tx tr B :=
  fun _ _ _ _ r _ => ⟨.inl ⟨_, rfl, fun _ => nofun, rfl⟩, h r.1 _⟩

theorem runs_mapError {ε' : Type} {f : ε → ε'} {p : Prog σ ρ Call Reply ε α}
    (h : Runs M Good p tx tr B) : Runs M Good (p.mapError f) tx tr B := by
  intro w
  rw [ensures_mapError]
  refine (h w).post_mono ?_
  intro r tx tr _ hr a ha
  cases r with
  | ok b =>
      cases ha
      exact hr a rfl
  | error e => cases ha

/-- A program without transactions commits what its statements write. -/
theorem Runs.of_only {S : List (Write ρ) → Prop} {p : Prog σ ρ Call Reply ε α} (h : p.Only S)
    (hgood : ∀ tr ws, S ws → Good tr ws) :
    Runs M Good p .idle tr fun _ tx tr' => tx = .idle ∧ tr <:+ tr' := by
  have key : ∀ tr', tr <:+ tr' → Runs M Good p .idle tr' fun _ tx tr'' => tx = .idle ∧ tr <:+ tr'' := by
    induction p with
    | pure a => exact fun tr' htr => runs_pure ⟨rfl, htr⟩
    | fail e => exact fun tr' htr => runs_fail
    | stmt s k ih =>
        intro tr' htr
        refine runs_stmt_idle (fun db e he => ⟨hgood _ _ (h.1 db e he), ih _ (h.2 _) _ ?_⟩)
          (ih _ (h.2 _) _ (htr.trans (List.suffix_cons _ _)))
        exact htr.trans ⟨[.committed e.writes, .ran e.read], rfl⟩
    | begin k => exact h.elim
    | commit k => exact h.elim
    | call c k ih =>
        exact fun tr' htr => runs_call fun r => ih r (h r) _ (htr.trans (List.suffix_cons _ _))
  exact key tr List.suffix_rfl

/-- A program without transactions inside of a transaction commits nothing; what waits for the
commit afterwards was there, or its statements wrote it. -/
theorem Ensures.of_only_inside {P : Write ρ → Prop} {R : Rely σ ρ Call Reply χ}
    {p : Prog σ ρ Call Reply ε α} {w : World σ χ} (hp : p.Only fun ws => ∀ a ∈ ws, P a)
    (htx : tx ≠ .idle) (hpending : ∀ a ∈ tx.pending, P a) :
    Ensures M R (fun _ _ _ _ => True) (fun _ tx' tr' _ => tx' ≠ .idle ∧ (∀ a ∈ tx'.pending, P a) ∧
      ∀ ws, .committed ws ∈ tr' → .committed ws ∈ tr) p tx tr w := by
  have key : ∀ (tx : Tx ρ) tr' w, tx ≠ .idle → (∀ a ∈ tx.pending, P a) →
      (∀ ws, .committed ws ∈ tr' → .committed ws ∈ tr) → Ensures M R (fun _ _ _ _ => True)
        (fun _ tx' tr' _ => tx' ≠ .idle ∧ (∀ a ∈ tx'.pending, P a) ∧
          ∀ ws, .committed ws ∈ tr' → .committed ws ∈ tr) p tx tr' w := by
    induction p with
    | pure a => exact fun tx tr' w htx hpending htr => ⟨htx, hpending, htr⟩
    | fail e => exact fun tx tr' w htx hpending htr => ⟨htx, hpending, htr⟩
    | stmt s k ih =>
        intro tx tr' w htx hpending htr w₁ _
        have hcons : ∀ ev : Event ρ Call Reply, (∀ ws, ev ≠ .committed ws) →
            ∀ ws, .committed ws ∈ ev :: tr' → .committed ws ∈ tr := fun ev hev ws hmem =>
          htr ws ((List.mem_cons.mp hmem).resolve_left fun h => hev ws h.symm)
        cases tx with
        | idle => exact absurd rfl htx
        | active ws =>
            refine ⟨fun e he => ⟨trivial, ih _ (hp.2 _) (.active (ws ++ e.writes)) _ _ nofun
              (fun a ha => ?_) (hcons _ nofun)⟩,
              ih _ (hp.2 _) .aborted _ _ nofun (List.forall_mem_nil _) (hcons _ nofun)⟩
            rcases List.mem_append.mp ha with ha | ha
            · exact hpending a ha
            · exact hp.1 _ e he a ha
        | aborted =>
            refine ⟨fun e he => ?_,
              ih _ (hp.2 _) .aborted _ _ nofun (List.forall_mem_nil _) (hcons _ nofun)⟩
            cases he
    | begin k => exact hp.elim
    | commit k => exact hp.elim
    | call c k ih =>
        intro tx tr' w htx hpending htr w₁ _ m r _
        refine ⟨trivial, ih r.1 (hp r.1) _ _ _ htx hpending fun ws hmem => ?_⟩
        exact htr ws ((List.mem_cons.mp hmem).resolve_left nofun)
  exact key tx tr w htx hpending fun _ h => h

/-- What a program has read. -/
theorem Runs.reads {R : ρ → Prop} {p : Prog σ ρ Call Reply ε α} (h : Runs M Good p tx tr B)
    (hp : p.Reads R) (htr : ∀ r, Saw tr r → R r) :
    Runs M Good p tx tr fun a tx' tr' => B a tx' tr' ∧ ∀ r, Saw tr' r → R r := by
  intro w
  replace h := h w
  induction p generalizing tx tr w with
  | pure a => exact fun b hb => ⟨h b hb, htr⟩
  | fail e => exact fun b hb => ⟨h b hb, htr⟩
  | stmt s k ih =>
      intro w₁ hw
      obtain ⟨hok, hfail⟩ := h w₁ hw
      refine ⟨fun e he => ⟨(hok e he).1, ih _ (hp.2 _) (fun r hr => ?_) _ (hok e he).2⟩,
        ih _ (hp.2 _) (fun r hr => htr r (saw_failed_cons.mp hr)) _ hfail⟩
      cases tx with
      | idle =>
          rcases saw_ran_cons.mp (saw_committed_cons.mp hr) with hr | hr
          · exact hp.1 _ e he r hr
          · exact htr r hr
      | active ws =>
          rcases saw_ran_cons.mp hr with hr | hr
          · exact hp.1 _ e he r hr
          · exact htr r hr
      | aborted => cases he
  | begin k ih =>
      intro w₁ hw
      obtain ⟨hok, hfail⟩ := h w₁ hw
      exact ⟨ih _ (hp _) htr _ hok, ih _ (hp _) (fun r hr => htr r (saw_failed_cons.mp hr)) _ hfail⟩
  | commit k ih =>
      intro w₁ hw
      obtain ⟨hok, hfail⟩ := h w₁ hw
      refine ⟨?_, ih _ (hp _) (fun r hr => htr r (saw_failed_cons.mp hr)) _ hfail⟩
      cases tx with
      | active ws =>
          exact ⟨hok.1, ih _ (hp _) (fun r hr => htr r (saw_committed_cons.mp hr)) _ hok.2⟩
      | idle => exact ih _ (hp _) htr _ hok
      | aborted => exact ih _ (hp _) htr _ hok
  | call c k ih =>
      intro w₁ hw m r hr
      obtain ⟨hg, hk⟩ := h w₁ hw m r hr
      exact ⟨hg, ih _ (hp _) (fun r hr => htr r (saw_called_cons.mp hr)) _ hk⟩

/-- Since `tr` only good commits were added. -/
def Since (Good : Commitment ρ Call Reply) (tr tr' : Trace ρ Call Reply) : Prop :=
  tr <:+ tr' ∧ ∀ ws past, .committed ws :: past <:+ tr' → tr <:+ past → Good past ws

theorem Since.refl {tr : Trace ρ Call Reply} : Since Good tr tr := by
  refine ⟨List.suffix_rfl, fun ws past hs hpast => absurd (hs.trans hpast).length_le ?_⟩
  simp

/-- An event other than a bad commit is added. -/
theorem Since.cons {tr tr' : Trace ρ Call Reply} {e : Event ρ Call Reply} (h : Since Good tr tr')
    (he : ∀ ws, e = .committed ws → Good tr' ws) : Since Good tr (e :: tr') := by
  refine ⟨h.1.trans (List.suffix_cons _ _), fun ws past hs hpast => ?_⟩
  rcases List.suffix_cons_iff.mp hs with heq | hs
  · cases heq
    exact he ws rfl
  · exact h.2 ws past hs hpast

theorem Since.trans {tr tr' tr'' : Trace ρ Call Reply} (h : Since Good tr tr')
    (h' : Since Good tr' tr'') : Since Good tr tr'' := by
  refine ⟨h.1.trans h'.1, fun ws past hs hpast => ?_⟩
  rcases List.suffix_or_suffix_of_suffix hs h'.1 with hle | hle
  · exact h.2 ws past hle hpast
  · rcases List.suffix_cons_iff.mp hle with heq | hle
    · exact h.2 ws past (heq ▸ List.suffix_rfl) hpast
    · exact h'.2 ws past hs hle

/-- **The commits of a program so far.**  Each commit comes after the trace that the program
began with, and a program that returns has made only good commits since. -/
theorem Runs.since {p : Prog σ ρ Call Reply ε α} (h : Runs M Good p tx tr B) :
    Runs M (fun past ws => tr <:+ past ∧ Good past ws) p tx tr
      fun a tx' tr' => B a tx' tr' ∧ Since Good tr tr' := by
  intro w
  refine ((h w).keeps (I := fun tr' _ => Since Good tr tr') Since.refl (fun _ _ _ _ hs => hs)
    (fun _ _ hs => hs.cons fun _ => nofun) ?_).mono (fun _ _ _ h => h) ?_ ?_
  · rintro tr₁ w₁ tr₂ w₂ (⟨e, rfl, hne, -⟩ | ⟨ws, past, rfl, hpast, hgood, -⟩) hs
    · exact hs.cons fun ws he => absurd he (hne ws)
    · refine Since.cons ?_ fun ws' he => by cases he; exact hgood
      rcases hpast with rfl | ⟨read, rfl⟩
      · exact hs
      · exact hs.cons fun _ => nofun
  · rintro tr₁ w₁ tr₂ w₂ ⟨hs, hstep | ⟨ws, past, htr, hpast, hgood, happly⟩⟩
    · exact .inl hstep
    · refine .inr ⟨ws, past, htr, hpast, ⟨?_, hgood⟩, happly⟩
      rcases hpast with rfl | ⟨read, rfl⟩
      · exact hs.1
      · exact hs.1.trans (List.suffix_cons _ _)
  · rintro r tx' tr' w' ⟨hs, hr⟩ a ha
    exact ⟨hr a ha, hs⟩

end Rules

/-! ## Runs of one program -/

/-- Everything a trace has committed, in order. -/
def Trace.writes : Trace ρ Call Reply → List (Write ρ)
  | [] => []
  | .committed ws :: tr => Trace.writes tr ++ ws
  | .ran _ :: tr => Trace.writes tr
  | .called _ _ :: tr => Trace.writes tr
  | .failed :: tr => Trace.writes tr

/-- What was committed before comes first. -/
theorem Trace.writes_append {l tr : Trace ρ Call Reply} :
    Trace.writes (l ++ tr) = Trace.writes tr ++ Trace.writes l := by
  induction l with
  | nil => exact (List.append_nil _).symm
  | cons e l ih =>
      cases e with
      | committed ws => rw [List.cons_append, writes, writes, ih, List.append_assoc]
      | ran rows => exact ih
      | called c r => exact ih
      | failed => exact ih

section Single

variable {M : Semantics σ ρ Call Reply χ μ} {Good : Commitment ρ Call Reply}
  {p : Prog σ ρ Call Reply ε α} {B : α → Tx ρ → Trace ρ Call Reply → Prop}
  {t : Thread σ ρ Call Reply ε α} {w w' : World σ χ} {acts : List (Act μ)}

/-- What a program that runs alone has committed: each commit was good for the trace before it,
and the store is what the commits made of it. -/
theorem exec_of_ensures {Q : Post σ ρ Call Reply χ ε α}
    (h : Ensures M Alone (Commits M Good) Q p .idle [] w)
    (hrun : Machine.Exec (Thread.step M) (Thread.start p, w) acts (t, w')) :
    t.Meets M Alone (Commits M Good) Q w' ∧
      (∀ ws past, .committed ws :: past <:+ t.trace → Good past ws) ∧
      w'.store = M.applyAll w.store (Trace.writes t.trace) := by
  refine h.exec hrun (fun tr w₁ => (∀ ws past, .committed ws :: past <:+ tr → Good past ws) ∧
    w₁.store = M.applyAll w.store (Trace.writes tr)) ?_ ?_ ?_
  · exact ⟨fun ws past hs => absurd (List.suffix_nil.mp hs) (List.cons_ne_nil _ _), rfl⟩
  · intro tr w₁ ⟨hgood, hstore⟩
    refine ⟨fun ws past hs => hgood ws past ?_, hstore⟩
    rcases List.suffix_cons_iff.mp hs with heq | hs
    · cases heq
    · exact hs
  · rintro tr w₁ tr' w₂ hstep ⟨hgood, hstore⟩
    rcases hstep with ⟨e, rfl, hne, hsame⟩ | ⟨ws, past, rfl, hpast, hg, happly⟩
    · refine ⟨fun ws past hs => hgood ws past ?_, ?_⟩
      · rcases List.suffix_cons_iff.mp hs with heq | hs
        · cases heq
          exact absurd rfl (hne ws)
        · exact hs
      · rw [hsame, hstore]
        cases e with
        | committed ws => exact absurd rfl (hne ws)
        | ran read => rfl
        | called c r => rfl
        | failed => rfl
    · have hwrites : Trace.writes past = Trace.writes tr := by
        rcases hpast with rfl | ⟨read, rfl⟩ <;> rfl
      refine ⟨fun ws' past' hs => ?_, ?_⟩
      · rcases List.suffix_cons_iff.mp hs with heq | hs
        · cases heq
          exact hg
        · rcases hpast with rfl | ⟨read, rfl⟩
          · exact hgood _ _ hs
          · rcases List.suffix_cons_iff.mp hs with heq | hs
            · cases heq
            · exact hgood _ _ hs
      · rw [happly, hstore, Trace.writes, hwrites, Semantics.applyAll_append]

/-- Without interference. -/
theorem Runs.alone {tx : Tx ρ} {tr : Trace ρ Call Reply} (h : Runs M Good p tx tr B) :
    Ensures M Alone (Commits M Good) (fun r tx tr _ => ∀ a, r = .ok a → B a tx tr) p tx tr w :=
  (h w).mono (fun _ _ _ _ => trivial) (fun _ _ _ _ h => h) fun _ _ _ _ h => h

/-- A program that commits nothing leaves the store as it is. -/
theorem Runs.still {tx : Tx ρ} {tr : Trace ρ Call Reply}
    (h : Runs M (fun _ ws => ws = []) p tx tr B) :
    Ensures M Alone (Commits M fun _ ws => ws = [])
      (fun r tx tr w' => w'.store = w.store ∧ ∀ a, r = .ok a → B a tx tr) p tx tr w := by
  refine (h.alone.keeps (I := fun _ w' => w'.store = w.store) rfl ?_ (fun _ _ hs => hs) ?_).mono
    (fun _ _ _ h => h) (fun _ _ _ _ h => h.2) fun _ _ _ _ h => h
  · rintro tr w₁ w₂ rfl hs
    exact hs
  · rintro tr₁ w₁ tr₂ w₂ (⟨e, -, -, hsame⟩ | ⟨ws, past, -, -, rfl, happly⟩) hs
    · exact hsame.trans hs
    · exact happly.trans hs

/-- **A program that runs alone.** -/
theorem Runs.exec (h : Runs M Good p .idle [] B)
    (hrun : Machine.Exec (Thread.step M) (Thread.start p, w) acts (t, w')) :
    (∀ a, t.prog.result = some (.ok a) → B a t.tx t.trace) ∧
      (∀ ws past, .committed ws :: past <:+ t.trace → Good past ws) ∧
      w'.store = M.applyAll w.store (Trace.writes t.trace) := by
  obtain ⟨hmeets, hrest⟩ := exec_of_ensures h.alone hrun
  exact ⟨fun a ha => hmeets.post ha a rfl, hrest⟩

end Single

/-! ## Runs of many programs -/

section Many

variable {M : Semantics σ ρ Call Reply χ μ} {handler : κ → Prog σ ρ Call Reply ε α}
  {Good : κ → Commitment ρ Call Reply} {P₀ P P' : Pool κ σ ρ Call Reply χ ε α}
  {turns : List (Turn κ μ)} {C : Pool κ σ ρ Call Reply χ ε α → Turn κ μ → Prop}
  {B : κ → α → Tx ρ → Trace ρ Call Reply → Prop}

/-- A commit: the call, its trace before it, and the writes. -/
abbrev CommitOf (κ ρ Call : Type) (Reply : Call → Type) := κ × Trace ρ Call Reply × List (Write ρ)

/-- The commit of a turn. -/
def Pool.commitOf (M : Semantics σ ρ Call Reply χ μ) (P : Pool κ σ ρ Call Reply χ ε α) :
    Turn κ μ → Option (CommitOf κ ρ Call Reply)
  | .act i b => P.calls[i]?.bind fun c => (Thread.step M (c.2, P.world) b).bind fun r =>
      match r.1.trace with
      | .committed ws :: past => if c.2.trace.length ≤ past.length then some (c.1, past, ws) else none
      | _ => none
  | _ => none

/-- A step of a pool, with the log of the commits so far. -/
def Pool.logStep (M : Semantics σ ρ Call Reply χ μ) (handler : κ → Prog σ ρ Call Reply ε α)
    (S : Pool κ σ ρ Call Reply χ ε α × List (CommitOf κ ρ Call Reply)) (a : Turn κ μ) :
    Option (Pool κ σ ρ Call Reply χ ε α × List (CommitOf κ ρ Call Reply)) :=
  (S.1.step M handler a).map fun P => (P, S.2 ++ (S.1.commitOf M a).toList)

section CommitOf

variable {i : ℕ} {b : Act μ} {q : κ} {t t' : Thread σ ρ Call Reply ε α} {w' : World σ χ}

/-- A step that commits. -/
theorem Pool.commitOf_eq_some (hi : P.calls[i]? = some (q, t))
    (hs : Thread.step M (t, P.world) b = some (t', w')) {ws : List (Write ρ)}
    {past : Trace ρ Call Reply} (htr : t'.trace = .committed ws :: past)
    (hpast : past = t.trace ∨ ∃ read, past = .ran read :: t.trace) :
    P.commitOf M (.act i b) = some (q, past, ws) := by
  have hle : t.trace.length ≤ past.length := by
    rcases hpast with rfl | ⟨read, rfl⟩ <;> simp
  simp [Pool.commitOf, hi, hs, htr, hle]

/-- A step that commits nothing. -/
theorem Pool.commitOf_eq_none (hi : P.calls[i]? = some (q, t))
    (hs : Thread.step M (t, P.world) b = some (t', w'))
    (htr : t'.trace = t.trace ∨ ∃ e, t'.trace = e :: t.trace ∧ ∀ ws, e ≠ .committed ws) :
    P.commitOf M (.act i b) = none := by
  simp only [Pool.commitOf, hi, hs, Option.bind_some]
  rcases htr with htr | ⟨e, htr, hne⟩
  · rw [htr]
    split
    · rename_i ws past heq
      rw [if_neg (by rw [heq]; simp)]
    · rfl
  · rw [htr]
    split
    · rename_i ws past heq
      exact absurd (List.cons.inj heq).1 (hne ws)
    · rfl

end CommitOf

/-- What a turn does to the store: nothing, or what its commit says, which is good. -/
def Pool.Committed (Good : κ → Commitment ρ Call Reply) (M : Semantics σ ρ Call Reply χ μ)
    (P : Pool κ σ ρ Call Reply χ ε α) (a : Turn κ μ) (P' : Pool κ σ ρ Call Reply χ ε α) : Prop :=
  P'.world.store = P.world.store ∨
  ∃ q past ws, P.commitOf M a = some (q, past, ws) ∧ Good q past ws ∧
    P'.world.store = M.applyAll P.world.store ws

/-- **A step of a pool.**  Whatever the calls of a pool do together, the store changes only by
good commits. -/
theorem Pool.committed (hspec : ∀ q, Runs M (Good q) (handler q) .idle [] (B q))
    (hrun : Machine.ExecWhile (Pool.step M handler) C P₀ turns P) (h₀ : P₀.calls = [])
    {a : Turn κ μ} (hs : P.step M handler a = some P') : Pool.Committed Good M P a P' := by
  have hmeets := (Pool.invariant (J := fun _ => True) (R := Anything)
    (G := fun q => Commits M (Good q)) (Q := fun q r tx tr _ => ∀ a, r = .ok a → B q a tx tr)
    (fun _ _ => trivial) (fun _ _ _ _ _ _ => trivial) (fun _ _ _ _ _ _ _ _ => trivial)
    (fun _ _ _ _ _ _ _ => trivial) (fun _ q _ w _ => hspec q w) hrun h₀ trivial).2
  rcases Pool.step_cases hs with ⟨q, rfl, rfl⟩ | ⟨i, b, q, t, t', w', rfl, hi, hst, rfl⟩ |
    ⟨i, c, rfl, -, -, rfl⟩
  · exact .inl rfl
  · obtain ⟨w, -, hm⟩ := hmeets _ (List.mem_of_getElem? hi)
    rcases (hm.step trivial hst).2 with ⟨-, rfl⟩ | ⟨e, -, -, hsame⟩ | ⟨ws, past, htr, hpast, hg, happly⟩
    · exact .inl rfl
    · exact .inl hsame
    · exact .inr ⟨q, past, ws, Pool.commitOf_eq_some hi hst htr hpast, hg, happly⟩
  · exact .inl rfl

/-- **An invariant of the store.**  It holds throughout if every commit that the condition lets
through keeps it. -/
theorem Pool.store_invariant {I : σ → Prop}
    (hspec : ∀ q, Runs M (Good q) (handler q) .idle [] (B q))
    (hrun : Machine.ExecWhile (Pool.step M handler) C P₀ turns P) (h₀ : P₀.calls = [])
    (hI : I P₀.world.store)
    (hkeep : ∀ P a q past ws, C P a → P.commitOf M a = some (q, past, ws) → Good q past ws →
      I P.world.store → I (M.applyAll P.world.store ws)) : I P.world.store := by
  induction hrun with
  | nil => exact hI
  | snoc hrun hC hs ih =>
      rcases Pool.committed hspec hrun h₀ hs with hsame | ⟨q, past, ws, hcommit, hgood, happly⟩
      · rwa [hsame]
      · rw [happly]
        exact hkeep _ _ _ _ _ hC hcommit hgood ih

end Many

end Program
