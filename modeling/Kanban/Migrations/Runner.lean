import Kanban.Lib.Exec
import Kanban.Lib.History
import Mathlib.Data.Fintype.Basic
import Mathlib.Logic.Function.Basic

/-!
# The runner of the system migrations

`MigrationRunner::run_all` goes through the registered migrations: it looks each up in the ledger, runs
the body of one that is not there, and inserts its name, which is the primary key.  Several pods do
so at once, and each may crash and start again.  Nothing keeps two pods from missing the same
migration in the ledger; then one starts a body that the other may have recorded by now, and its
own insertion is rejected.

## Main definitions

* `Stage`, `Site`, `step` — the pods, and a turn of one of them.
* `EventLaw` — when a body may start and a migration may be recorded.
* `Careful` — a pod looks a migration up while no other is about to apply it.
-/

namespace Kanban.Migrations

open History

/-- Where a pod is in `run_all`. -/
inductive Stage
  | down
  | ensuring
  | checking (i : ℕ)
  | missed (i : ℕ)
  | running (i : ℕ)
  | recording (i : ℕ)
  | returned (ok : Bool)
  deriving DecidableEq, Repr

/-- How a turn goes: a pod starts, it crashes, its step goes through, fails, or goes through with the
answer lost. -/
inductive Act
  | boot
  | crash
  | ok
  | fail
  | lose
  deriving DecidableEq, Repr

structure Turn (π : Type) where
  pod : π
  act : Act

/-- What a pod does to the world. -/
inductive Event (π : Type)
  | ensured (pod : π)
  | started (pod : π) (i : ℕ)
  | succeeded (pod : π) (i : ℕ)
  | recorded (pod : π) (i : ℕ) (name : String)
  deriving DecidableEq, Repr

/-- The table `system_migrations`, if it exists, the pods, and what they have done. -/
structure Site (π : Type) where
  table : Option (List String)
  pods : π → Stage
  log : List (Event π)

section Step

variable {π : Type}

/-- The next stage of a pod, and what it does. -/
def Stage.next (names : List String) (table : Option (List String)) (pod : π) :
    Stage → Act → Option (Stage × Option (Event π))
  | .down, .boot => some (.ensuring, none)
  | .down, _ => none
  | _, .crash => some (.down, none)
  | .ensuring, .ok => some (.checking 0, some (.ensured pod))
  | .ensuring, .lose => some (.returned false, some (.ensured pod))
  | .ensuring, .fail => some (.returned false, none)
  | .checking i, .ok =>
      match names[i]?, table with
      | none, _ => some (.returned true, none)
      | some _, none => some (.returned false, none)
      | some name, some ledger =>
          if name ∈ ledger then some (.checking (i + 1), none) else some (.missed i, none)
  | .checking i, .fail => if i < names.length then some (.returned false, none) else none
  | .missed i, .ok => some (.running i, some (.started pod i))
  | .running i, .ok => some (.recording i, some (.succeeded pod i))
  | .running _, .fail => some (.returned false, none)
  | .recording i, .ok =>
      match names[i]?, table with
      | some name, some ledger =>
          -- the primary key
          if name ∈ ledger then some (.returned false, none)
          else some (.checking (i + 1), some (.recorded pod i name))
      | _, _ => some (.returned false, none)
  | .recording i, .lose =>
      match names[i]?, table with
      | some name, some ledger =>
          if name ∈ ledger then none else some (.returned false, some (.recorded pod i name))
      | _, _ => none
  | .recording _, .fail => some (.returned false, none)
  | _, _ => none

/-- The table after an event. -/
def Event.onTable : Event π → Option (List String) → Option (List String)
  | .ensured _, table => some (table.getD [])
  | .recorded _ _ name, table => table.map (name :: ·)
  | _, table => table

variable [DecidableEq π]

/-- A turn of a pod. -/
def step (names : List String) (s : Site π) (t : Turn π) : Option (Site π) :=
  ((s.pods t.pod).next names s.table t.pod t.act).map fun r =>
    { table := r.2.elim s.table (Event.onTable · s.table)
      pods := Function.update s.pods t.pod r.1
      log := s.log ++ r.2.toList }

/-- No pod is up. -/
def Site.start (table : Option (List String)) : Site π := ⟨table, fun _ => .down, []⟩

end Step

/-! ## What is to hold -/

section Law

variable {π : Type} (names : List String) (table : Option (List String))

/-- The migration `i` is recorded, from the start or since. -/
def Recorded (log : List (Event π)) (i : ℕ) : Prop :=
  ∃ name ∈ names[i]?, name ∈ table.getD [] ∨ ∃ pod j, Event.recorded pod j name ∈ log

/-- A migration is recorded after its body succeeded; a body starts after all earlier migrations are
recorded, and before its own is. -/
def EventLaw (log : List (Event π)) : Event π → Prop
  | .started _ i => (∀ j < i, Recorded names table log j) ∧ ¬ Recorded names table log i
  | .recorded pod i name => names[i]? = some name ∧ .succeeded pod i ∈ log
  | _ => True

/-- The migration that a pod has found missing and not recorded yet. -/
def Stage.window : Stage → Option ℕ
  | .missed i => some i
  | .running i => some i
  | .recording i => some i
  | _ => none

/-- The migration that a pod looks up next. -/
def Stage.lookup : Stage → Option ℕ
  | .checking i => some i
  | _ => none

/-- When a pod looks a migration up, no other is between its own look at that migration and its
record. -/
def Careful (s : Site π) (t : Turn π) : Prop :=
  t.act = .ok → ∀ i ∈ (s.pods t.pod).lookup,
    ∀ q, q ≠ t.pod → ∀ j ∈ (s.pods q).window, names[j]? ≠ names[i]?

instance [Fintype π] [DecidableEq π] (s : Site π) (t : Turn π) : Decidable (Careful names s t) :=
  inferInstanceAs (Decidable (_ → _))

end Law

/-! ## What a turn can do -/

section Moves

variable {π : Type} {names : List String} {table : Option (List String)} {pod : π} {a : Act}
  {stage stage' : Stage} {e : Option (Event π)} {log : List (Event π)} {i : ℕ} {name : String}

/-- The turns of a pod. -/
inductive Moves (names : List String) (table : Option (List String)) (pod : π) :
    Stage → Act → Stage → Option (Event π) → Prop
  | boot : Moves names table pod .down .boot .ensuring none
  | crash {stage : Stage} : Moves names table pod stage .crash .down none
  | fail {stage : Stage} : Moves names table pod stage .fail (.returned false) none
  | ensure : Moves names table pod .ensuring .ok (.checking 0) (some (.ensured pod))
  | ensureLost : Moves names table pod .ensuring .lose (.returned false) (some (.ensured pod))
  | done {i : ℕ} : names[i]? = none → Moves names table pod (.checking i) .ok (.returned true) none
  | broken {i : ℕ} : table = none → Moves names table pod (.checking i) .ok (.returned false) none
  | found {i : ℕ} {name : String} {ledger : List String} :
      names[i]? = some name → table = some ledger → name ∈ ledger →
      Moves names table pod (.checking i) .ok (.checking (i + 1)) none
  | miss {i : ℕ} {name : String} {ledger : List String} :
      names[i]? = some name → table = some ledger → name ∉ ledger →
      Moves names table pod (.checking i) .ok (.missed i) none
  | start {i : ℕ} : Moves names table pod (.missed i) .ok (.running i) (some (.started pod i))
  | succeed {i : ℕ} : Moves names table pod (.running i) .ok (.recording i) (some (.succeeded pod i))
  | conflict {i : ℕ} : (∀ name ∈ names[i]?, ∀ ledger ∈ table, name ∈ ledger) →
      Moves names table pod (.recording i) .ok (.returned false) none
  | record {i : ℕ} {name : String} {ledger : List String} :
      names[i]? = some name → table = some ledger → name ∉ ledger →
      Moves names table pod (.recording i) .ok (.checking (i + 1)) (some (.recorded pod i name))
  | recordLost {i : ℕ} {name : String} {ledger : List String} :
      names[i]? = some name → table = some ledger → name ∉ ledger →
      Moves names table pod (.recording i) .lose (.returned false) (some (.recorded pod i name))

/-- **The turns of a pod are these.** -/
theorem moves_of_next (h : stage.next names table pod a = some (stage', e)) :
    Moves names table pod stage a stage' e := by
  cases stage with
  | down => cases a <;> cases h; exact .boot
  | ensuring =>
      cases a <;> cases h
      · exact .crash
      · exact .ensure
      · exact .fail
      · exact .ensureLost
  | checking i =>
      cases a with
      | boot => cases h
      | crash => cases h; exact .crash
      | ok =>
          simp only [Stage.next] at h
          split at h
          · rename_i hname
            cases h
            exact .done hname
          · cases h
            exact .broken rfl
          · rename_i hname
            split at h
            · rename_i hmem
              cases h
              exact .found hname rfl hmem
            · rename_i hmem
              cases h
              exact .miss hname rfl hmem
      | fail =>
          obtain ⟨-, h⟩ := Option.ite_none_right_eq_some.mp h
          cases h
          exact .fail
      | lose => cases h
  | missed i =>
      cases a <;> cases h
      · exact .crash
      · exact .start
  | running i =>
      cases a <;> cases h
      · exact .crash
      · exact .succeed
      · exact .fail
  | recording i =>
      cases a with
      | boot => cases h
      | crash => cases h; exact .crash
      | ok =>
          simp only [Stage.next] at h
          split at h
          · rename_i name ledger hname
            split at h
            · rename_i hmem
              cases h
              refine .conflict fun name' hname' ledger' hledger' => ?_
              cases hname.symm.trans hname'
              cases hledger'
              exact hmem
            · rename_i hmem
              cases h
              exact .record hname rfl hmem
          · rename_i hnone
            cases h
            exact .conflict fun name hname ledger hledger => absurd hledger (hnone name ledger hname)
      | fail => cases h; exact .fail
      | lose =>
          simp only [Stage.next] at h
          split at h
          · rename_i name ledger hname
            obtain ⟨hmem, h⟩ := Option.ite_none_left_eq_some.mp h
            cases h
            exact .recordLost hname rfl hmem
          · cases h
  | returned ok => cases a <;> cases h; exact .crash

/-- A migration is recorded in a table that exists, under its name. -/
theorem Moves.recorded {i : ℕ} {q : π} (h : Moves names table pod stage a stage' (some (.recorded q i name))) :
    table.isSome ∧ names[i]? = some name ∧ stage = .recording i ∧ stage'.window = none ∧ q = pod := by
  cases h with
  | record hname htable _ =>
      subst htable
      exact ⟨rfl, hname, rfl, rfl, rfl⟩
  | recordLost hname htable _ =>
      subst htable
      exact ⟨rfl, hname, rfl, rfl, rfl⟩

/-- A body starts in the window of its pod. -/
theorem Moves.started {i : ℕ} {q : π} (h : Moves names table pod stage a stage' (some (.started q i))) :
    stage = .missed i := by
  cases h
  rfl

/-- The names in the table after an event. -/
theorem mem_onTable {e : Event π} (hsome : ∀ q i n, e = .recorded q i n → table.isSome) :
    name ∈ (e.onTable table).getD [] ↔ name ∈ table.getD [] ∨ ∃ q i, e = .recorded q i name := by
  cases e with
  | ensured q => simp [Event.onTable]
  | started q i => simp [Event.onTable]
  | succeeded q i => simp [Event.onTable]
  | recorded q i n =>
      obtain ⟨ledger, rfl⟩ := Option.isSome_iff_exists.mp (hsome q i n rfl)
      simp [Event.onTable, eq_comm, or_comm]

variable [DecidableEq π] {s s' : Site π} {t : Turn π}

theorem step_cases (h : step names s t = some s') :
    ∃ stage' e, Moves names s.table t.pod (s.pods t.pod) t.act stage' e ∧
      s' = { table := e.elim s.table (Event.onTable · s.table)
             pods := Function.update s.pods t.pod stage'
             log := s.log ++ e.toList } := by
  obtain ⟨⟨stage', e⟩, hnext, rfl⟩ := Option.map_eq_some_iff.mp h
  exact ⟨stage', e, moves_of_next hnext, rfl⟩

end Moves

/-! ## Every run -/

section Sound

variable {π : Type} {names : List String} {table : Option (List String)} {s s' : Site π} {pod : π}
  {stage : Stage}

/-- The migration `i` is in the table. -/
def InLedger (names : List String) (table : Option (List String)) (i : ℕ) : Prop :=
  ∃ name ∈ names[i]?, name ∈ table.getD []

/-- The migration that a pod is at. -/
def Stage.position : Stage → Option ℕ
  | .checking i => some i
  | .missed i => some i
  | .running i => some i
  | .recording i => some i
  | _ => none

/-- What a pod relies on where it is. -/
structure Knows (names : List String) (s : Site π) (pod : π) (stage : Stage) : Prop where
  earlier : ∀ i ∈ stage.position, s.table.isSome ∧ ∀ j < i, InLedger names s.table j
  inRange : ∀ i ∈ stage.window, i < names.length
  succeeded : ∀ i, stage = .recording i → .succeeded pod i ∈ s.log

/-- The table and the log grow. -/
structure Grows (s s' : Site π) : Prop where
  table : s.table.isSome → s'.table.isSome
  ledger : ∀ name ∈ s.table.getD [], name ∈ s'.table.getD []
  log : ∀ e ∈ s.log, e ∈ s'.log

theorem Knows.mono (h : Knows names s pod stage) (hs : Grows s s') : Knows names s' pod stage where
  earlier i hi := by
    obtain ⟨htable, hearlier⟩ := h.earlier i hi
    refine ⟨hs.table htable, fun j hj => ?_⟩
    obtain ⟨name, hname, hmem⟩ := hearlier j hj
    exact ⟨name, hname, hs.ledger name hmem⟩
  inRange := h.inRange
  succeeded i hi := hs.log _ (h.succeeded i hi)

/-- What the events of every run keep to. -/
def OrderLaw (names : List String) (table : Option (List String)) (log : List (Event π)) :
    Event π → Prop
  | .started _ i => ∀ j < i, Recorded names table log j
  | .recorded pod i name => names[i]? = some name ∧ .succeeded pod i ∈ log
  | _ => True

/-- The invariant of every run. -/
structure Sound (names : List String) (table : Option (List String)) (s : Site π) : Prop where
  ledger : ∀ name, name ∈ s.table.getD [] ↔
    name ∈ table.getD [] ∨ ∃ pod j, Event.recorded pod j name ∈ s.log
  knows : ∀ pod, Knows names s pod (s.pods pod)
  order : Along (OrderLaw names table) s.log

theorem Sound.recorded_iff (h : Sound names table s) {i : ℕ} :
    Recorded names table s.log i ↔ InLedger names s.table i :=
  exists_congr fun name => and_congr_right fun _ => (h.ledger name).symm

theorem sound_start : Sound names table (Site.start table : Site π) where
  ledger name := by simp [Site.start]
  knows pod := ⟨nofun, nofun, nofun⟩
  order := along_nil

/-- What a pod relies on after its turn. -/
theorem Knows.step {a : Act} {stage' : Stage} {e : Option (Event π)} (h : Knows names s pod stage)
    (hmoves : Moves names s.table pod stage a stage' e) (hs : Grows s s')
    (hledger : ∀ name, name ∈ s.table.getD [] ∨ (∃ q i, e = some (.recorded q i name)) →
      name ∈ s'.table.getD []) (htable : ∀ q, e = some (.ensured q) → s'.table.isSome)
    (hlog : ∀ e' ∈ e, e' ∈ s'.log) : Knows names s' pod stage' := by
  have hnext : ∀ i name, i ∈ stage.position → names[i]? = some name → name ∈ s'.table.getD [] →
      s'.table.isSome ∧ ∀ j < i + 1, InLedger names s'.table j := by
    intro i name hi hname hmem
    obtain ⟨htable, hearlier⟩ := (h.mono hs).earlier i hi
    refine ⟨htable, fun j hj => ?_⟩
    rcases Nat.lt_succ_iff_lt_or_eq.mp hj with hj | rfl
    · exact hearlier j hj
    · exact ⟨name, hname, hmem⟩
  cases hmoves with
  | boot => exact ⟨nofun, nofun, nofun⟩
  | crash => exact ⟨nofun, nofun, nofun⟩
  | fail => exact ⟨nofun, nofun, nofun⟩
  | ensureLost => exact ⟨nofun, nofun, nofun⟩
  | done _ => exact ⟨nofun, nofun, nofun⟩
  | broken _ => exact ⟨nofun, nofun, nofun⟩
  | conflict _ => exact ⟨nofun, nofun, nofun⟩
  | recordLost _ _ _ => exact ⟨nofun, nofun, nofun⟩
  | ensure =>
      refine ⟨fun i hi => ?_, nofun, nofun⟩
      obtain rfl := Option.some.inj hi
      exact ⟨htable _ rfl, nofun⟩
  | @found i name ledger hname hledger' hmem =>
      refine ⟨fun i' hi => ?_, nofun, nofun⟩
      obtain rfl := Option.some.inj hi
      refine hnext i name rfl hname (hledger name (.inl ?_))
      rw [hledger']
      exact hmem
  | @record i name ledger hname hledger' hmem =>
      refine ⟨fun i' hi => ?_, nofun, nofun⟩
      obtain rfl := Option.some.inj hi
      exact hnext i name rfl hname (hledger name (.inr ⟨_, _, rfl⟩))
  | @miss i name ledger hname _ _ =>
      refine ⟨(h.mono hs).earlier, fun i' hi => ?_, nofun⟩
      obtain rfl := Option.some.inj hi
      exact (List.getElem?_eq_some_iff.mp hname).1
  | start => exact ⟨(h.mono hs).earlier, (h.mono hs).inRange, nofun⟩
  | succeed =>
      refine ⟨(h.mono hs).earlier, (h.mono hs).inRange, fun i hi => ?_⟩
      cases hi
      exact hlog _ rfl

variable [DecidableEq π] {t : Turn π}

/-- **A turn keeps it.** -/
theorem Sound.step (h : Sound names table s) (hstep : step names s t = some s') :
    Sound names table s' := by
  obtain ⟨stage', e, hmoves, rfl⟩ := step_cases hstep
  have hknows := h.knows t.pod
  have hledger : ∀ name, name ∈ (e.elim s.table (Event.onTable · s.table)).getD [] ↔
      name ∈ s.table.getD [] ∨ ∃ q i, e = some (.recorded q i name) := by
    intro name
    cases e with
    | none => simp
    | some e =>
        simp only [Option.elim_some, Option.some.injEq]
        exact mem_onTable fun q i n he => (Moves.recorded (he ▸ hmoves)).1
  have hgrows : Grows s ⟨e.elim s.table (Event.onTable · s.table),
      Function.update s.pods t.pod stage', s.log ++ e.toList⟩ := by
    refine ⟨fun hsome => ?_, fun name hname => (hledger name).mpr (.inl hname),
      fun e he => List.mem_append_left _ he⟩
    obtain ⟨ledger, hledger⟩ := Option.isSome_iff_exists.mp hsome
    rw [hledger]
    rcases e with _ | (_ | _ | _ | _) <;> rfl
  refine ⟨fun name => ?_, fun pod => ?_, ?_⟩
  · rw [hledger, h.ledger]
    constructor
    · rintro ((hname | ⟨q, j, hlog⟩) | ⟨q, j, rfl⟩)
      · exact .inl hname
      · exact .inr ⟨q, j, List.mem_append_left _ hlog⟩
      · exact .inr ⟨q, j, List.mem_append_right _ (List.mem_singleton_self _)⟩
    · rintro (hname | ⟨q, j, hlog⟩)
      · exact .inl (.inl hname)
      · rcases List.mem_append.mp hlog with hlog | hlog
        · exact .inl (.inr ⟨q, j, hlog⟩)
        · exact .inr ⟨q, j, Option.mem_toList.mp hlog⟩
  · dsimp only
    by_cases hpod : pod = t.pod
    · subst hpod
      rw [Function.update_self]
      refine hknows.step hmoves hgrows (fun name hname => (hledger name).mpr hname)
        (fun q he => ?_) fun e' he' => List.mem_append_right _ (Option.mem_toList.mpr he')
      rw [he]
      rfl
    · rw [Function.update_of_ne hpod]
      exact (h.knows pod).mono hgrows
  · cases e with
    | none => simpa using h.order
    | some e =>
        refine along_concat.mpr ⟨h.order, ?_⟩
        cases e with
        | ensured q => trivial
        | succeeded q i => trivial
        | started q i =>
            rw [hmoves.started] at hknows
            exact fun j hj => h.recorded_iff.mpr ((hknows.earlier i rfl).2 j hj)
        | recorded q i name =>
            obtain ⟨-, hname, hstage, -, rfl⟩ := hmoves.recorded
            exact ⟨hname, hknows.succeeded i hstage⟩

end Sound

/-! ## Runs in which every turn is careful -/

section Exclusive

variable {π : Type} {names : List String} {table : Option (List String)} {s s' : Site π} {pod : π}
  {stage stage' : Stage} {a : Act} {e : Option (Event π)} {i : ℕ}

/-- The invariant of the runs in which every turn is careful. -/
structure Exclusive (names : List String) (table : Option (List String)) (s : Site π) : Prop where
  apart : ∀ p q, q ≠ p → ∀ i ∈ (s.pods p).window, ∀ j ∈ (s.pods q).window, names[j]? ≠ names[i]?
  unrecorded : ∀ p, ∀ i ∈ (s.pods p).window, ¬ InLedger names s.table i
  fresh : Along (fun log e => ∀ p i, e = .started p i → ¬ Recorded names table log i) s.log

theorem exclusive_start : Exclusive names table (Site.start table : Site π) :=
  ⟨nofun, nofun, along_nil⟩

/-- A pod finds a migration missing, or it had found it missing before. -/
theorem Moves.window (h : Moves names table pod stage a stage' e) (hi : i ∈ stage'.window) :
    i ∈ stage.window ∨ stage = .checking i ∧ a = .ok ∧ ¬ InLedger names table i := by
  cases h with
  | start => exact .inl hi
  | succeed => exact .inl hi
  | miss hname htable hmem =>
      subst htable
      obtain rfl := Option.some.inj hi
      refine .inr ⟨rfl, rfl, fun ⟨name, hname', hmem'⟩ => ?_⟩
      cases hname.symm.trans hname'
      exact hmem hmem'
  | boot => cases hi
  | crash => cases hi
  | fail => cases hi
  | ensure => cases hi
  | ensureLost => cases hi
  | done _ => cases hi
  | broken _ => cases hi
  | found _ _ _ => cases hi
  | conflict _ => cases hi
  | record _ _ _ => cases hi
  | recordLost _ _ _ => cases hi

variable [DecidableEq π] {t : Turn π}

/-- **A careful turn keeps it.** -/
theorem Exclusive.step (h : Exclusive names table s) (hsound : Sound names table s)
    (hcareful : Careful names s t) (hstep : step names s t = some s') : Exclusive names table s' := by
  obtain ⟨stage', e, hmoves, rfl⟩ := step_cases hstep
  have hapart : ∀ q, q ≠ t.pod → ∀ i ∈ stage'.window, ∀ j ∈ (s.pods q).window, names[j]? ≠ names[i]? := by
    intro q hq i hi j hj
    rcases hmoves.window hi with hold | ⟨hcheck, hok, -⟩
    · exact h.apart t.pod q hq i hold j hj
    · exact hcareful hok i (by rw [hcheck]; rfl) q hq j hj
  refine ⟨fun p q hne i hi j hj => ?_, fun p i hi hledger => ?_, ?_⟩
  · dsimp only at hi hj
    by_cases hp : p = t.pod
    · subst hp
      rw [Function.update_self] at hi
      rw [Function.update_of_ne hne] at hj
      exact hapart q hne i hi j hj
    · rw [Function.update_of_ne hp] at hi
      by_cases hq : q = t.pod
      · subst hq
        rw [Function.update_self] at hj
        exact (hapart p hp j hj i hi).symm
      · rw [Function.update_of_ne hq] at hj
        exact h.apart p q hne i hi j hj
  · -- a migration enters the ledger when the one pod in its window records it
    dsimp only at hi hledger
    obtain ⟨name, hname, hmem⟩ := hledger
    have hbefore : InLedger names s.table i ∨ ∃ q j, e = some (.recorded q j name) := by
      cases e with
      | none => exact .inl ⟨name, hname, hmem⟩
      | some e =>
          rcases (mem_onTable fun q i n he => (Moves.recorded (he ▸ hmoves)).1).mp hmem with hmem | hmem
          · exact .inl ⟨name, hname, hmem⟩
          · exact .inr (by simpa using hmem)
    by_cases hp : p = t.pod
    · subst hp
      rw [Function.update_self] at hi
      rcases hbefore with hledger | ⟨q, j, rfl⟩
      · rcases hmoves.window hi with hold | ⟨-, -, hnot⟩
        · exact h.unrecorded t.pod i hold hledger
        · exact hnot hledger
      · rw [hmoves.recorded.2.2.2.1] at hi
        cases hi
    · rw [Function.update_of_ne hp] at hi
      rcases hbefore with hledger | ⟨q, j, rfl⟩
      · exact h.unrecorded p i hi hledger
      · obtain ⟨-, hname', hstage, -, -⟩ := hmoves.recorded
        have hwindow : j ∈ (s.pods t.pod).window := by
          rw [hstage]
          rfl
        exact h.apart t.pod p hp j hwindow i hi (hname.trans hname'.symm)
  · cases e with
    | none => simpa using h.fresh
    | some e =>
        refine along_concat.mpr ⟨h.fresh, ?_⟩
        rintro p i rfl hrecorded
        have hwindow : i ∈ (s.pods t.pod).window := by
          rw [hmoves.started]
          rfl
        exact h.unrecorded t.pod i hwindow (hsound.recorded_iff.mp hrecorded)

/-- How many turns a pod needs at most that does not crash or fail. -/
def Stage.left (names : List String) : Stage → ℕ
  | .down => 4 * names.length + 3
  | .ensuring => 4 * names.length + 2
  | .checking i => 4 * (names.length - i) + 1
  | .missed i => 4 * (names.length - i)
  | .running i => 4 * (names.length - i) - 1
  | .recording i => 4 * (names.length - i) - 2
  | .returned _ => 0

omit [DecidableEq π] in
/-- A pod that neither crashes nor fails comes closer to its return, and does not return an error. -/
theorem Moves.left_lt (h : Moves names s.table pod stage a stage' e) (hclean : a = .boot ∨ a = .ok)
    (hknows : Knows names s pod stage) (hwindow : ∀ i ∈ stage.window, ¬ InLedger names s.table i) :
    stage'.left names < stage.left names ∧ stage' ≠ .returned false := by
  cases h with
  | boot => exact ⟨Nat.lt_succ_self _, nofun⟩
  | ensure => exact ⟨Nat.lt_succ_self _, nofun⟩
  | done _ => exact ⟨Nat.succ_pos _, nofun⟩
  | broken htable =>
      have hsome := (hknows.earlier _ rfl).1
      rw [htable] at hsome
      cases hsome
  | found hname _ _ =>
      have hi := (List.getElem?_eq_some_iff.mp hname).1
      exact ⟨by simp only [Stage.left]; omega, nofun⟩
  | miss _ _ _ => exact ⟨Nat.lt_succ_self _, nofun⟩
  | start =>
      have hi := hknows.inRange _ rfl
      exact ⟨by simp only [Stage.left]; omega, nofun⟩
  | succeed =>
      have hi := hknows.inRange _ rfl
      exact ⟨by simp only [Stage.left]; omega, nofun⟩
  | @conflict i hmem =>
      have hi := hknows.inRange i rfl
      obtain ⟨ledger, hledger⟩ := Option.isSome_iff_exists.mp (hknows.earlier i rfl).1
      have hname : names[i]? = some names[i] := List.getElem?_eq_getElem hi
      refine absurd ⟨names[i], hname, ?_⟩ (hwindow i rfl)
      rw [hledger]
      exact hmem _ hname ledger hledger
  | record hname _ _ =>
      have hi := (List.getElem?_eq_some_iff.mp hname).1
      exact ⟨by simp only [Stage.left]; omega, nofun⟩
  | crash => simp at hclean
  | fail => simp at hclean
  | ensureLost => simp at hclean
  | recordLost _ _ _ => simp at hclean

omit [DecidableEq π] in
/-- A pod that has not returned can go on. -/
theorem exists_next (stage : Stage) :
    (∃ ok, stage = .returned ok) ∨
      ∃ a, (a = .boot ∨ a = .ok) ∧ (stage.next names s.table pod a).isSome := by
  cases stage with
  | returned ok => exact .inl ⟨ok, rfl⟩
  | down => exact .inr ⟨.boot, .inl rfl, rfl⟩
  | ensuring => exact .inr ⟨.ok, .inr rfl, rfl⟩
  | checking i =>
      refine .inr ⟨.ok, .inr rfl, ?_⟩
      simp only [Stage.next]
      split
      · rfl
      · rfl
      · split <;> rfl
  | missed i => exact .inr ⟨.ok, .inr rfl, rfl⟩
  | running i => exact .inr ⟨.ok, .inr rfl, rfl⟩
  | recording i =>
      refine .inr ⟨.ok, .inr rfl, ?_⟩
      simp only [Stage.next]
      split
      · split <;> rfl
      · rfl

omit [DecidableEq π] in
/-- A pod that has no turn left has returned. -/
theorem Knows.exists_returned (h : Knows names s pod stage) (hleft : stage.left names = 0) :
    ∃ ok, stage = .returned ok := by
  have hwindow := h.inRange
  cases stage with
  | returned ok => exact ⟨ok, rfl⟩
  | down => cases hleft
  | ensuring => cases hleft
  | checking i => cases hleft
  | missed i =>
      have hi := hwindow i rfl
      simp only [Stage.left] at hleft
      omega
  | running i =>
      have hi := hwindow i rfl
      simp only [Stage.left] at hleft
      omega
  | recording i =>
      have hi := hwindow i rfl
      simp only [Stage.left] at hleft
      omega

/-- **The migrations run once, in order.**  In every run in which each pod looks a migration up while no
other is between its look at it and its record, every migration is recorded after its body
succeeded, and no body starts before all earlier migrations are recorded or after its own is; and if
no pod crashes and nothing fails, each pod can go on until it has returned, it has after finitely many
turns, and none returns an error. -/
theorem migrations_run_once {turns : List (Turn π)}
    (hrun : Machine.ExecWhile (step names) (Careful names) (Site.start table) turns s) :
    Along (EventLaw names table) s.log ∧
      ((∀ t ∈ turns, t.act = .boot ∨ t.act = .ok) → ∀ p,
        (s.pods p = .returned true ∨ ∃ a, (a = .boot ∨ a = .ok) ∧ (step names s ⟨p, a⟩).isSome) ∧
        (4 * names.length + 3 ≤ (turns.filter (·.pod = p)).length → s.pods p = .returned true)) := by
  have hinv := hrun.invariant (fun s => Sound names table s ∧ Exclusive names table s)
    ⟨sound_start, exclusive_start⟩ fun _ _ _ h hc hs => ⟨h.1.step hs, h.2.step h.1 hc hs⟩
  refine ⟨fun log e post hlog => ?_, fun hclean p => ?_⟩
  · have horder := hinv.1.order log e post hlog
    cases e with
    | ensured q => trivial
    | succeeded q i => trivial
    | started q i => exact ⟨horder, hinv.2.fresh log _ post hlog q i rfl⟩
    | recorded q i name => exact horder
  · have hleft : (turns.filter (·.pod = p)).length + (s.pods p).left names ≤ 4 * names.length + 3 ∧
        s.pods p ≠ .returned false := by
      clear hinv
      induction hrun with
      | nil => exact ⟨by simp [Site.start, Stage.left], nofun⟩
      | @snoc turns s t s' hrun hcareful hstep ih =>
          obtain ⟨ihleft, ihok⟩ := ih fun t ht => hclean t (List.mem_append_left _ ht)
          obtain ⟨hsound, hexclusive⟩ := hrun.invariant
            (fun s => Sound names table s ∧ Exclusive names table s)
            ⟨sound_start, exclusive_start⟩ fun _ _ _ h hc hs => ⟨h.1.step hs, h.2.step h.1 hc hs⟩
          obtain ⟨stage', e, hmoves, rfl⟩ := step_cases hstep
          rw [List.filter_append, List.length_append]
          dsimp only
          by_cases hp : p = t.pod
          · subst hp
            obtain ⟨hlt, hok⟩ := hmoves.left_lt (hclean t (by simp)) (hsound.knows t.pod)
              (hexclusive.unrecorded t.pod)
            rw [Function.update_self]
            refine ⟨?_, hok⟩
            simp only [List.filter_cons, decide_true, if_true, List.filter_nil, List.length_singleton]
            omega
          · rw [Function.update_of_ne hp]
            refine ⟨?_, ihok⟩
            simpa [List.filter_cons, Ne.symm hp] using ihleft
    have hok : ∀ ok, s.pods p = .returned ok → s.pods p = .returned true := by
      intro ok hreturned
      cases ok with
      | true => exact hreturned
      | false => exact absurd hreturned hleft.2
    refine ⟨?_, fun hturns => ?_⟩
    · have hgoes : (∃ ok, s.pods p = .returned ok) ∨ ∃ a, (a = .boot ∨ a = .ok) ∧
          ((s.pods p).next names s.table p a).isSome := exists_next (s.pods p)
      rcases hgoes with ⟨ok, h⟩ | ⟨a, ha, hnext⟩
      · exact .inl (hok ok h)
      · exact .inr ⟨a, ha, by rw [step, Option.isSome_map]; exact hnext⟩
    · obtain ⟨ok, hreturned⟩ := (hinv.1.knows p).exists_returned (by omega)
      exact hok ok hreturned

end Exclusive

/-- Two pods start together; the second looks the migration up when the first has recorded it. -/
theorem migrations_run_once_twoPods :
    ∃ s, Machine.ExecWhile (step ["m"]) (Careful ["m"]) (Site.start none)
        [⟨false, .boot⟩, ⟨false, .ok⟩, ⟨false, .ok⟩, ⟨true, .boot⟩, ⟨true, .ok⟩, ⟨false, .ok⟩,
          ⟨false, .ok⟩, ⟨false, .ok⟩, ⟨true, .ok⟩, ⟨false, .ok⟩] s ∧
      Along (EventLaw ["m"] none) s.log ∧ s.log.length = 5 ∧ s.pods false = .returned true := by
  obtain ⟨s, hrun, hlog⟩ : ∃ s, Machine.run (Machine.guarded (step ["m"]) (Careful ["m"])) (Site.start none)
      [⟨false, .boot⟩, ⟨false, .ok⟩, ⟨false, .ok⟩, ⟨true, .boot⟩, ⟨true, .ok⟩, ⟨false, .ok⟩,
        ⟨false, .ok⟩, ⟨false, .ok⟩, ⟨true, .ok⟩, ⟨false, .ok⟩] = some s ∧ s.log.length = 5 :=
    ⟨_, rfl, by decide⟩
  have hexec := Machine.execWhile_of_run hrun
  obtain ⟨hlaw, hclean⟩ := migrations_run_once hexec
  exact ⟨s, hexec, hlaw, hlog, (hclean (by decide) false).2 (by decide)⟩

/-- Two pods look the migration up before either applies it: no pod crashes and nothing fails, the body is
started again after it is recorded, and the second pod returns an error. -/
theorem migrations_run_twice :
    ∃ (turns : List (Turn Bool)) (s : Site Bool),
      Machine.Exec (step ["m"]) (Site.start none) turns s ∧ (∀ t ∈ turns, t.act = .boot ∨ t.act = .ok) ∧
        ¬ Along (EventLaw ["m"] none) s.log ∧ s.pods true = .returned false := by
  obtain ⟨s, hrun, hlog, hpod⟩ : ∃ s, Machine.run (step ["m"]) (Site.start none)
      [⟨false, .boot⟩, ⟨false, .ok⟩, ⟨false, .ok⟩, ⟨true, .boot⟩, ⟨true, .ok⟩, ⟨true, .ok⟩, ⟨false, .ok⟩,
        ⟨false, .ok⟩, ⟨false, .ok⟩, ⟨true, .ok⟩, ⟨true, .ok⟩, ⟨true, .ok⟩] = some s ∧
      s.log = [.ensured false, .ensured true, .started false 0, .succeeded false 0,
        .recorded false 0 "m"] ++ .started true 0 :: [.succeeded true 0] ∧
      s.pods true = .returned false := ⟨_, rfl, by decide, by decide⟩
  refine ⟨_, s, Machine.exec_of_run hrun, by decide, fun h => ?_, hpod⟩
  exact (h _ _ _ hlog).2 ⟨"m", rfl, .inr ⟨false, 0, by decide⟩⟩

end Kanban.Migrations
