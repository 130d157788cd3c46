import Mathlib.Data.Finset.Card
import Kanban.Realtime.Cutover

/-!
# Whole runs of the cutover tracker

A subscription calls its tracker in any order, with any ids and sequences.  What was emitted decides
what the tracker remembers: the window holds the last ids that were emitted, and the last sequence is
the largest that was emitted live, or the one of the first cutover.

## Main definitions

* `Observation`, `CutoverTracker.observe` — a call and its outcome.
* `watchAll` — a run from a new tracker, with what it has emitted.
* `WholeRun` — what holds of the outcomes of a run.
-/

namespace Kanban.Realtime

open History

variable {ι : Type*} [DecidableEq ι]

/-- A call of the tracker. -/
inductive Observation (ι : Type*)
  | replay (eventId : ι)
  | cutover (lastReplayNatsSeq : ℕ)
  | live (eventId : ι) (natsSeq : ℕ)
  deriving DecidableEq, Repr

namespace Observation

def eventId : Observation ι → Option ι
  | .replay id => some id
  | .cutover _ => none
  | .live id _ => some id

def liveSeq : Observation ι → Option ℕ
  | .live _ seq => some seq
  | _ => none

def cutoverSeq : Observation ι → Option ℕ
  | .cutover seq => some seq
  | _ => none

end Observation

/-- The outcome of a call, if it has one, and the tracker after it. -/
def CutoverTracker.observe (t : CutoverTracker ι) :
    Observation ι → Option Outcome × CutoverTracker ι
  | .replay id => (some (t.observeReplay id).1, (t.observeReplay id).2)
  | .cutover seq => (none, t.cutoverToLive seq)
  | .live id seq => (some (t.observeLive id seq).1, (t.observeLive id seq).2)

/-- The tracker after one more call, with the calls whose event was emitted. -/
def watch (s : CutoverTracker ι × List (Observation ι)) (o : Observation ι) :
    CutoverTracker ι × List (Observation ι) :=
  ((s.1.observe o).2, if (s.1.observe o).1 = some .emit then s.2 ++ [o] else s.2)

/-- A run from a new tracker. -/
def watchAll (c : ℕ) (calls : List (Observation ι)) : CutoverTracker ι × List (Observation ι) :=
  calls.foldl watch (.withCapacity c, [])

/-- The tracker after a run. -/
def after (c : ℕ) (calls : List (Observation ι)) : CutoverTracker ι := (watchAll c calls).1

/-- The calls of a run whose event was emitted. -/
def emitted (c : ℕ) (calls : List (Observation ι)) : List (Observation ι) := (watchAll c calls).2

def emittedIds (c : ℕ) (calls : List (Observation ι)) : List ι :=
  (emitted c calls).filterMap Observation.eventId

def liveSeqs (c : ℕ) (calls : List (Observation ι)) : List ℕ :=
  (emitted c calls).filterMap Observation.liveSeq

/-- The sequence of the first cutover. -/
def firstCutover (calls : List (Observation ι)) : Option ℕ := calls.findSome? Observation.cutoverSeq

/-- The last ids, as many as the window holds. -/
def lastIds (c : ℕ) (ids : List ι) : List ι := ids.drop (ids.length - c)

/-- What holds of a run of a tracker that remembers `c` ids. -/
structure WholeRun (c : ℕ) (calls : List (Observation ι)) : Prop where
  /-- Live emissions rise strictly from the first cutover, and none precedes it. -/
  rising : ∀ base, firstCutover calls = some base → Rising id base (liveSeqs c calls)
  none_before : firstCutover calls = none → liveSeqs c calls = []
  /-- Only the first cutover does anything. -/
  later_cutover : ∀ seq, firstCutover calls ≠ none → after c (calls ++ [.cutover seq]) = after c calls
  /-- An id comes again only after as many others as the window holds. -/
  again : ∀ pre x mid post, emittedIds c calls = pre ++ x :: (mid ++ x :: post) →
    c ≤ (mid.toFinset.erase x).card
  /-- A call that does not emit leaves no trace. -/
  silent : ∀ o : Observation ι, o.eventId ≠ none → ((after c calls).observe o).1 ≠ some .emit →
    after c (calls ++ [o]) = after c calls
  /-- Events that are new to the window, under rising sequences, are emitted in full. -/
  in_full : ∀ base, firstCutover calls = some base → ∀ evs : List (ι × ℕ),
    (evs.map Prod.fst).Nodup → (∀ e ∈ evs, e.1 ∉ lastIds c (emittedIds c calls)) →
    Rising Prod.snd ((liveSeqs c calls).getLastD base) evs →
    emitted c (calls ++ evs.map fun e => .live e.1 e.2) =
      emitted c calls ++ evs.map fun e => .live e.1 e.2

section Window

variable {c : ℕ} {ids : List ι} {x : ι}

omit [DecidableEq ι] in
theorem lastIds_concat (hc : 1 ≤ c) : lastIds c (ids ++ [x]) =
    (if c ≤ (lastIds c ids).length then (lastIds c ids).tail else lastIds c ids) ++ [x] := by
  unfold lastIds
  rw [List.length_append, List.length_singleton, List.length_drop]
  split
  · rw [List.tail_drop, List.drop_append_of_le_length (by omega)]
    congr 2
    omega
  · rw [List.drop_append_of_le_length (by omega)]
    congr 2
    omega

/-- A window that has lost an id holds as many others. -/
theorem card_of_not_mem_lastIds {pre mid : List ι} (hnodup : (lastIds c (pre ++ x :: mid)).Nodup)
    (hx : x ∉ lastIds c (pre ++ x :: mid)) : c ≤ (mid.toFinset.erase x).card := by
  have hlen : (pre ++ x :: mid).length = pre.length + 1 + mid.length := by
    rw [List.length_append, List.length_cons]
    omega
  -- the window does not reach back to the id
  have hfar : pre.length < (pre ++ x :: mid).length - c := by
    by_contra hle
    refine hx ?_
    unfold lastIds
    rw [List.drop_append_of_le_length (not_lt.mp hle)]
    exact List.mem_append_right _ List.mem_cons_self
  have hsplit : (pre ++ x :: mid).length - c = pre.length + (mid.length - c + 1) := by omega
  have hwindow : lastIds c (pre ++ x :: mid) = mid.drop (mid.length - c) := by
    unfold lastIds
    rw [hsplit, List.drop_append, List.drop_eq_nil_of_le (Nat.le_add_right _ _),
      Nat.add_sub_cancel_left, List.drop_succ_cons, List.nil_append]
  rw [hwindow] at hnodup hx
  have hsub : (mid.drop (mid.length - c)).toFinset ⊆ mid.toFinset.erase x := by
    intro y hy
    have hy := List.mem_toFinset.mp hy
    refine Finset.mem_erase.mpr ⟨fun heq => hx (heq ▸ hy), List.mem_toFinset.mpr ?_⟩
    exact List.mem_of_mem_drop hy
  calc c = (mid.drop (mid.length - c)).length := by rw [List.length_drop]; omega
    _ = (mid.drop (mid.length - c)).toFinset.card := (List.toFinset_card_of_nodup hnodup).symm
    _ ≤ _ := Finset.card_le_card hsub

theorem BoundedSet.queue_insert {s : BoundedSet ι} (hx : x ∉ s.queue) :
    (s.insert x).2.queue =
      (if s.capacity ≤ s.queue.length then s.queue.tail else s.queue) ++ [x] := by
  unfold BoundedSet.insert
  rw [dif_neg fun h => hx ((s.mem_set x).mp h)]
  unfold BoundedSet.makeRoom
  split <;> rfl

theorem BoundedSet.capacity_insert {s : BoundedSet ι} : (s.insert x).2.capacity = s.capacity := by
  unfold BoundedSet.insert BoundedSet.makeRoom
  split
  · rfl
  · split <;> rfl

end Window

/-! ## What a call does -/

section Calls

variable {t : CutoverTracker ι} {x : ι} {seq last : ℕ}

/-- A replayed event is emitted, or nothing happens. -/
theorem observeReplay_cases : x ∉ t.seenIds.queue ∧ t.observeReplay x =
      (.emit, { t with seenIds := (t.seenIds.insert x).2 }) ∨
    x ∈ t.seenIds.queue ∧ t.observeReplay x = (.drop, t) := by
  by_cases hx : x ∈ t.seenIds.queue
  · refine .inr ⟨hx, ?_⟩
    rw [CutoverTracker.observeReplay, BoundedSet.insert_of_mem hx]
  · refine .inl ⟨hx, ?_⟩
    have hins := BoundedSet.insert_fst.mpr hx
    unfold CutoverTracker.observeReplay
    split <;> simp_all

/-- A live event is emitted, or nothing happens. -/
theorem observeLive_cases (x : ι) (seq : ℕ) (h : t.LiveAt last) : last < seq ∧ x ∉ t.seenIds.queue ∧
      t.observeLive x seq =
        (.emit, { t with seenIds := (t.seenIds.insert x).2, lastLiveSeq := some seq }) ∨
    (t.observeLive x seq).1 ≠ .emit ∧ (t.observeLive x seq).2 = t := by
  rcases Nat.lt_or_ge last seq with hlt | hle
  · by_cases hx : x ∈ t.seenIds.queue
    · rw [CutoverTracker.observeLive_of_mem h hlt hx]
      exact .inr ⟨nofun, rfl⟩
    · exact .inl ⟨hlt, hx, CutoverTracker.observeLive_of_lt h hlt hx⟩
  · rw [CutoverTracker.observeLive_of_le h hle]
    exact .inr ⟨nofun, rfl⟩

end Calls

/-! ## The invariant of a run -/

/-- What a tracker knows after a run, and what the run has emitted. -/
structure Tracked (c : ℕ) (calls : List (Observation ι)) : Prop where
  capacity : (after c calls).seenIds.capacity = c
  window : (after c calls).seenIds.queue = lastIds c (emittedIds c calls)
  /-- An id that is emitted is not in the window. -/
  fresh : Along (fun pre x => (lastIds c pre).Nodup ∧ x ∉ lastIds c pre) (emittedIds c calls)
  before : firstCutover calls = none → (after c calls).phase = .replay ∧ liveSeqs c calls = []
  live : ∀ base, firstCutover calls = some base → Rising id base (liveSeqs c calls) ∧
    (after c calls).LiveAt (peak id base (liveSeqs c calls))

section Runs

variable {c : ℕ} {calls : List (Observation ι)} {o : Observation ι}

theorem watchAll_concat : watchAll c (calls ++ [o]) = watch (watchAll c calls) o := by
  rw [watchAll, List.foldl_append]
  rfl

theorem after_concat : after c (calls ++ [o]) = ((after c calls).observe o).2 := by
  rw [after, watchAll_concat]
  rfl

theorem emitted_concat : emitted c (calls ++ [o]) =
    if ((after c calls).observe o).1 = some .emit then emitted c calls ++ [o]
    else emitted c calls := by
  rw [emitted, watchAll_concat]
  rfl

omit [DecidableEq ι] in
theorem firstCutover_concat : firstCutover (calls ++ [o]) =
    (firstCutover calls).or o.cutoverSeq := by
  unfold firstCutover
  rw [List.findSome?_append]
  cases h : o.cutoverSeq <;> simp [h]

/-- A call that does not emit and changes nothing. -/
theorem Tracked.silent (h : Tracked c calls) (ho : o.cutoverSeq = none)
    (hemit : ((after c calls).observe o).1 ≠ some .emit)
    (hsame : ((after c calls).observe o).2 = after c calls) : Tracked c (calls ++ [o]) := by
  have hafter : after c (calls ++ [o]) = after c calls := after_concat.trans hsame
  have hemitted : emitted c (calls ++ [o]) = emitted c calls := emitted_concat.trans (if_neg hemit)
  have hfirst : firstCutover (calls ++ [o]) = firstCutover calls := by
    rw [firstCutover_concat, ho, Option.or_none]
  have hids : emittedIds c (calls ++ [o]) = emittedIds c calls := by rw [emittedIds, hemitted]; rfl
  have hseqs : liveSeqs c (calls ++ [o]) = liveSeqs c calls := by rw [liveSeqs, hemitted]; rfl
  exact ⟨hafter ▸ h.capacity, by rw [hafter, hids]; exact h.window, hids ▸ h.fresh,
    by rw [hfirst, hafter, hseqs]; exact h.before, by rw [hfirst, hafter, hseqs]; exact h.live⟩

/-- The window after an id was emitted. -/
theorem Tracked.window_insert (hc : 1 ≤ c) (h : Tracked c calls) {x : ι}
    (hx : x ∉ (after c calls).seenIds.queue) :
    ((after c calls).seenIds.insert x).2.queue = lastIds c (emittedIds c calls ++ [x]) := by
  rw [BoundedSet.queue_insert hx, lastIds_concat hc, h.capacity, h.window]

theorem Tracked.fresh_insert (h : Tracked c calls) {x : ι}
    (hx : x ∉ (after c calls).seenIds.queue) :
    Along (fun pre x => (lastIds c pre).Nodup ∧ x ∉ lastIds c pre) (emittedIds c calls ++ [x]) :=
  along_concat.mpr ⟨h.fresh, h.window ▸ (after c calls).seenIds.queue_nodup, h.window ▸ hx⟩

/-- **One more call.** -/
theorem Tracked.step (hc : 1 ≤ c) (h : Tracked c calls) (o : Observation ι) :
    Tracked c (calls ++ [o]) := by
  cases o with
  | replay x =>
      rcases observeReplay_cases (t := after c calls) (x := x) with ⟨hx, hobs⟩ | ⟨-, hobs⟩
      · have hafter : after c (calls ++ [.replay x]) = { after c calls with
            seenIds := ((after c calls).seenIds.insert x).2 } :=
          after_concat.trans (congrArg Prod.snd hobs)
        have hemitted : emitted c (calls ++ [.replay x]) = emitted c calls ++ [.replay x] :=
          emitted_concat.trans (if_pos (congrArg (some ∘ Prod.fst) hobs))
        have hids : emittedIds c (calls ++ [.replay x]) = emittedIds c calls ++ [x] := by
          rw [emittedIds, hemitted, List.filterMap_append]
          rfl
        have hseqs : liveSeqs c (calls ++ [.replay x]) = liveSeqs c calls := by
          rw [liveSeqs, hemitted, List.filterMap_append]
          exact List.append_nil _
        have hfirst : firstCutover (calls ++ [.replay x]) = firstCutover calls := by
          rw [firstCutover_concat]
          exact Option.or_none
        refine ⟨?_, ?_, ?_, ?_, ?_⟩
        · rw [hafter]
          exact BoundedSet.capacity_insert.trans h.capacity
        · rw [hafter, hids]
          exact h.window_insert hc hx
        · rw [hids]
          exact h.fresh_insert hx
        · rw [hfirst, hafter, hseqs]
          exact h.before
        · rw [hfirst, hafter, hseqs]
          exact fun base hb => ⟨(h.live base hb).1, (h.live base hb).2.phase,
            (h.live base hb).2.lastLiveSeq⟩
      · exact h.silent rfl (fun heq => by simp [CutoverTracker.observe, hobs] at heq)
          (congrArg Prod.snd hobs)
  | cutover seq =>
      have hafter : after c (calls ++ [.cutover seq]) = (after c calls).cutoverToLive seq :=
        after_concat
      have hemitted : emitted c (calls ++ [.cutover seq]) = emitted c calls :=
        emitted_concat.trans (if_neg nofun)
      have hids : emittedIds c (calls ++ [.cutover seq]) = emittedIds c calls := by
        rw [emittedIds, hemitted]
        rfl
      have hseqs : liveSeqs c (calls ++ [.cutover seq]) = liveSeqs c calls := by
        rw [liveSeqs, hemitted]
        rfl
      have hcap : (after c (calls ++ [.cutover seq])).seenIds = (after c calls).seenIds := by
        rw [hafter, CutoverTracker.cutoverToLive_seenIds]
      refine ⟨hcap ▸ h.capacity, by rw [hcap, hids]; exact h.window, hids ▸ h.fresh, fun hnone => ?_,
        fun base hbase => ?_⟩
      · rw [firstCutover_concat] at hnone
        simp [Observation.cutoverSeq] at hnone
      · rw [firstCutover_concat] at hbase
        rw [hseqs, hafter]
        cases hfirst : firstCutover calls with
        | none =>
            obtain ⟨hphase, hnil⟩ := h.before hfirst
            rw [hfirst] at hbase
            obtain rfl : seq = base := Option.some.inj hbase
            rw [hnil]
            exact ⟨rising_nil, CutoverTracker.liveAt_cutoverToLive hphase seq⟩
        | some first =>
            rw [hfirst] at hbase
            obtain rfl : first = base := Option.some.inj hbase
            obtain ⟨hrising, hlive⟩ := h.live first hfirst
            rw [CutoverTracker.cutoverToLive_of_live hlive.phase]
            exact ⟨hrising, hlive⟩
  | live x seq =>
      have hfirst : firstCutover (calls ++ [.live x seq]) = firstCutover calls := by
        rw [firstCutover_concat]
        exact Option.or_none
      cases hbase : firstCutover calls with
      | none =>
          have hobs := CutoverTracker.observeLive_of_replay (h.before hbase).1 x seq
          exact h.silent rfl (fun heq => by simp [CutoverTracker.observe, hobs] at heq)
            (congrArg Prod.snd hobs)
      | some base =>
          obtain ⟨hrising, hlive⟩ := h.live base hbase
          rcases observeLive_cases x seq hlive with ⟨hlt, hx, hobs⟩ | ⟨hemit, hsame⟩
          · have hafter : after c (calls ++ [.live x seq]) = { after c calls with
                seenIds := ((after c calls).seenIds.insert x).2, lastLiveSeq := some seq } :=
              after_concat.trans (congrArg Prod.snd hobs)
            have hemitted : emitted c (calls ++ [.live x seq]) =
                emitted c calls ++ [.live x seq] :=
              emitted_concat.trans (if_pos (congrArg (some ∘ Prod.fst) hobs))
            have hids : emittedIds c (calls ++ [.live x seq]) = emittedIds c calls ++ [x] := by
              rw [emittedIds, hemitted, List.filterMap_append]
              rfl
            have hseqs : liveSeqs c (calls ++ [.live x seq]) = liveSeqs c calls ++ [seq] := by
              rw [liveSeqs, hemitted, List.filterMap_append]
              rfl
            refine ⟨?_, ?_, ?_, fun hnone => ?_, fun base' hb' => ?_⟩
            · rw [hafter]
              exact BoundedSet.capacity_insert.trans h.capacity
            · rw [hafter, hids]
              exact h.window_insert hc hx
            · rw [hids]
              exact h.fresh_insert hx
            · rw [hfirst, hbase] at hnone
              cases hnone
            · rw [hfirst, hbase] at hb'
              obtain rfl : base = base' := Option.some.inj hb'
              rw [hseqs, hafter, peak_concat]
              refine ⟨rising_concat.mpr ⟨hrising, hlt⟩, hlive.phase, ?_⟩
              exact congrArg some (max_eq_right hlt.le).symm
          · exact h.silent rfl (fun heq => hemit (Option.some.inj heq)) hsame

/-- **Every run.** -/
theorem tracked (hc : 1 ≤ c) (calls : List (Observation ι)) : Tracked c calls := by
  induction calls using List.reverseRecOn with
  | nil => exact ⟨rfl, List.drop_nil.symm, along_nil, fun _ => ⟨rfl, rfl⟩, fun _ h => by cases h⟩
  | append_singleton calls o ih => exact ih.step hc o

omit [DecidableEq ι] in
/-- The peak of a history that rises is its last key. -/
theorem peak_eq_getLastD {base : ℕ} {l : List ℕ} (h : Rising id base l) :
    peak id base l = l.getLastD base := by
  rcases l.eq_nil_or_concat' with rfl | ⟨l, n, rfl⟩
  · rfl
  · obtain ⟨-, hlt⟩ := rising_concat.mp h
    rw [peak_concat, List.getLastD_concat]
    exact max_eq_right hlt.le

omit [DecidableEq ι] in
theorem not_mem_lastIds_concat (hc : 1 ≤ c) {ids : List ι} {x y : ι} (hx : x ∉ lastIds c ids)
    (hne : x ≠ y) : x ∉ lastIds c (ids ++ [y]) := by
  rw [lastIds_concat hc]
  intro hmem
  rcases List.mem_append.mp hmem with hmem | hmem
  · split at hmem
    · exact hx (List.mem_of_mem_tail hmem)
    · exact hx hmem
  · exact hne (List.mem_singleton.mp hmem)

/-- One more event of a tail that is new to the window. -/
theorem Tracked.emit_live (h : Tracked c calls) {base seq : ℕ} {x : ι}
    (hbase : firstCutover calls = some base) (hx : x ∉ lastIds c (emittedIds c calls))
    (hlt : (liveSeqs c calls).getLastD base < seq) :
    emitted c (calls ++ [.live x seq]) = emitted c calls ++ [.live x seq] := by
  obtain ⟨hrising, hlive⟩ := h.live base hbase
  rw [peak_eq_getLastD hrising] at hlive
  rw [← h.window] at hx
  have hobs := CutoverTracker.observeLive_of_lt hlive hlt hx
  exact emitted_concat.trans (if_pos (congrArg (some ∘ Prod.fst) hobs))

/-- **A tail that is new to the window is emitted in full**, by induction on the tail. -/
theorem emitted_tail (hc : 1 ≤ c) {base : ℕ} (hbase : firstCutover calls = some base)
    (evs : List (ι × ℕ)) (hids : (evs.map Prod.fst).Nodup)
    (hnew : ∀ e ∈ evs, e.1 ∉ lastIds c (emittedIds c calls))
    (hrising : Rising Prod.snd ((liveSeqs c calls).getLastD base) evs) :
    emitted c (calls ++ evs.map fun e => .live e.1 e.2) =
      emitted c calls ++ evs.map fun e => .live e.1 e.2 := by
  induction evs generalizing calls with
  | nil => rw [List.map_nil, List.append_nil, List.append_nil]
  | cons e evs ih =>
      obtain ⟨hhead, hids⟩ := List.nodup_cons.mp hids
      obtain ⟨hfirst, hpair⟩ := List.pairwise_cons.mp hrising.pairwise
      have hone := (tracked hc calls).emit_live hbase (hnew e List.mem_cons_self)
        (hrising.above e List.mem_cons_self)
      have hids' : emittedIds c (calls ++ [.live e.1 e.2]) = emittedIds c calls ++ [e.1] := by
        rw [emittedIds, hone, List.filterMap_append]
        rfl
      have hseqs : liveSeqs c (calls ++ [.live e.1 e.2]) = liveSeqs c calls ++ [e.2] := by
        rw [liveSeqs, hone, List.filterMap_append]
        rfl
      have hcut : firstCutover (calls ++ [.live e.1 e.2]) = some base := by
        rw [firstCutover_concat, hbase]
        rfl
      have hrest := ih hcut hids (fun e' he' => ?_) ⟨fun e' he' => ?_, hpair⟩
      · rw [hone, List.append_assoc, List.append_assoc] at hrest
        exact hrest
      · rw [hids']
        refine not_mem_lastIds_concat hc (hnew e' (List.mem_cons_of_mem _ he')) fun heq => hhead ?_
        exact List.mem_map.mpr ⟨e', he', heq⟩
      · rw [hseqs, List.getLastD_concat]
        exact hfirst e' he'

/-- A call that does not emit leaves the tracker as it is. -/
theorem Tracked.silent_same (h : Tracked c calls) (ho : o.eventId ≠ none)
    (hemit : ((after c calls).observe o).1 ≠ some .emit) :
    ((after c calls).observe o).2 = after c calls := by
  cases o with
  | replay x =>
      rcases observeReplay_cases (t := after c calls) (x := x) with ⟨-, hobs⟩ | ⟨-, hobs⟩
      · exact absurd (congrArg (some ∘ Prod.fst) hobs) hemit
      · exact congrArg Prod.snd hobs
  | cutover seq => exact absurd rfl ho
  | live x seq =>
      cases hbase : firstCutover calls with
      | none =>
          exact congrArg Prod.snd (CutoverTracker.observeLive_of_replay (h.before hbase).1 x seq)
      | some base =>
          rcases observeLive_cases x seq (h.live base hbase).2 with
            ⟨-, -, hobs⟩ | ⟨-, hsame⟩
          · exact absurd (congrArg (some ∘ Prod.fst) hobs) hemit
          · exact hsame

/-- **The cutover tracker over whole runs.**  Live emissions rise strictly from the first cutover,
an id is emitted again only after as many others as the window holds, what is not emitted leaves no
trace, and a tail that is new to the window is emitted in full. -/
theorem whole_run (hc : 1 ≤ c) (calls : List (Observation ι)) : WholeRun c calls := by
  have h := tracked hc calls
  refine ⟨fun base hbase => (h.live base hbase).1, fun hnone => (h.before hnone).2,
    fun seq hcut => ?_, fun pre x mid post heq => ?_, fun o ho hemit => ?_,
    fun base hbase evs => emitted_tail hc hbase evs⟩
  · obtain ⟨base, hbase⟩ := Option.ne_none_iff_exists'.mp hcut
    exact after_concat.trans (CutoverTracker.cutoverToLive_of_live (h.live base hbase).2.phase seq)
  · -- the window at the second emission
    obtain ⟨hnodup, hx⟩ := h.fresh (pre ++ x :: mid) x post (by simp [heq])
    exact card_of_not_mem_lastIds hnodup hx
  · exact after_concat.trans (h.silent_same ho hemit)

/-- A window of one id: the first comes again after the second was emitted. -/
theorem whole_run_evicted :
    WholeRun 1 [.replay "a", .cutover 4, .live "b" 5, .cutover 9, .live "a" 6] ∧
      emittedIds 1 [.replay "a", .cutover 4, .live "b" 5, .cutover 9, .live "a" 6] =
        ["a", "b", "a"] :=
  ⟨whole_run (by decide) _, by decide⟩

end Runs

end Kanban.Realtime
