import Kanban.Services.BoardStream

/-!
# What a board stream makes of its tail

The stream emits the envelopes that its receiver hands it above the cutover.  Envelopes come in
the order of their sequences, so the tracker lets through every one above the cutover whose id it
does not remember from the snapshot or from an envelope that it has let through.

## Main definitions

* `BoardStream.emitted`, `BoardStream.replayedIds` — the live envelopes and the snapshot ids.
* `BoardStream.Tail` — what holds of a stream that was cut over, against what it has taken.
* `BoardStream.TailInv` — the same at every place of the stream.
-/

namespace Kanban.Services

open Machine History Kanban.Realtime

/-- The sequence that the stream is going to cut over at. -/
def Loc.base? : Loc → Option ℕ
  | .replay _ lastReplay => some lastReplay
  | .cutover seq => some seq
  | _ => none

namespace BoardStream

/-- The live envelope that an observation shows. -/
def live? : Obs Item → Option (BoardEventEnvelope String)
  | .yielded (.live e) => some e
  | _ => none

/-- The id of the snapshot envelope that an observation shows. -/
def replayed? : Obs Item → Option String
  | .yielded (.snapshot e) => some e.eventId
  | _ => none

/-- The live envelopes of the stream. -/
def emitted (s : BoardStream) : List (BoardEventEnvelope String) := s.trace.filterMap live?

/-- The ids of the snapshot envelopes. -/
def replayedIds (s : BoardStream) : List String := s.trace.filterMap replayed?

/-- Before the cutover. -/
structure Replaying (s : BoardStream) : Prop where
  phase : s.tracker.phase = .replay
  emitted : s.emitted = []
  seen : ∀ id ∈ s.tracker.seenIds.queue, id ∈ s.replayedIds

/-- After a cutover at `base`, with `taken` received since. -/
structure Tail (base : ℕ) (taken : List (BoardEventEnvelope String)) (s : BoardStream) :
    Prop where
  tailing : Tailing BoardEventEnvelope.eventId BoardEventEnvelope.natsSeq base s.replayedIds
    s.emitted s.tracker
  sub : ∀ e ∈ s.emitted, e ∈ taken
  covers : ∀ e ∈ taken, base < e.natsSeq →
    e.eventId ∈ s.replayedIds ∨ ∃ e' ∈ s.emitted, e'.eventId = e.eventId

/-- The stream is before its cutover, and then goes on at `base`, or after it. -/
def TailInv (base : ℕ) (taken : List (BoardEventEnvelope String)) (s : BoardStream) : Prop :=
  match s.loc with
  | .subscribe | .snapshot | .replay _ _ | .cutover _ => s.Replaying ∧ taken = []
  | .enter | .top | .recheck | .select => s.Tail base taken
  | .closed => (s.Replaying ∧ taken = []) ∨ s.Tail base taken

/-- From `s` to `t` nothing went through the tracker, and nothing of it was shown. -/
structure Quiet (s t : BoardStream) : Prop where
  tracker : t.tracker = s.tracker
  emitted : t.emitted = s.emitted
  replayedIds : t.replayedIds = s.replayedIds

section Frame

variable {s t : BoardStream} {args : SubscribeBoardArgs} {base : ℕ}
  {taken : List (BoardEventEnvelope String)}

@[simp] theorem emitted_yield (item : Item) :
    (s.yield item).emitted = s.emitted ++ (live? (.yielded item)).toList := by
  cases h : live? (.yielded item) <;> simp [emitted, yield, h]

@[simp] theorem replayedIds_yield (item : Item) :
    (s.yield item).replayedIds = s.replayedIds ++ (replayed? (.yielded item)).toList := by
  cases h : replayed? (.yielded item) <;> simp [replayedIds, yield, h]

theorem emitted_observe (e : BoardEventEnvelope String) :
    (s.observe e).emitted = s.emitted ++
      if (s.tracker.observeLive e.eventId e.natsSeq).1 = .emit then [e] else [] := by
  unfold observe
  split
  · exact emitted_yield _
  · exact (List.append_nil _).symm

@[simp] theorem replayedIds_observe (e : BoardEventEnvelope String) :
    (s.observe e).replayedIds = s.replayedIds := by
  unfold observe
  split
  · exact (replayedIds_yield _).trans (List.append_nil _)
  · rfl

@[simp] theorem tracker_observe (e : BoardEventEnvelope String) :
    (s.observe e).tracker = (s.tracker.observeLive e.eventId e.natsSeq).2 := by
  unfold observe
  split <;> rfl

theorem quiet_heartbeat : Quiet s (s.yield .heartbeat) :=
  ⟨rfl, by simp [live?], by simp [replayed?]⟩

theorem quiet_fail (code : ErrorCode) (message : String) : Quiet s (s.fail code message) :=
  ⟨rfl, (emitted_yield (.error ⟨code, message⟩)).trans (by simp [live?]),
    (replayedIds_yield (.error ⟨code, message⟩)).trans (by simp [replayed?])⟩

theorem quiet_hear (granted : Bool) : Quiet s (s.hear args granted) :=
  ⟨rfl, by simp [emitted, hear, live?], by simp [replayedIds, hear, replayed?]⟩

theorem Quiet.trans {u : BoardStream} (h : Quiet s t) (h' : Quiet t u) : Quiet s u :=
  ⟨h'.tracker.trans h.tracker, h'.emitted.trans h.emitted, h'.replayedIds.trans h.replayedIds⟩

theorem Replaying.quiet (h : s.Replaying) (hq : Quiet s t) : t.Replaying := by
  refine ⟨?_, ?_, ?_⟩
  · rw [hq.tracker]; exact h.phase
  · rw [hq.emitted]; exact h.emitted
  · rw [hq.tracker, hq.replayedIds]; exact h.seen

theorem Tail.quiet (h : s.Tail base taken) (hq : Quiet s t) : t.Tail base taken := by
  refine ⟨?_, ?_, ?_⟩
  · rw [hq.tracker, hq.emitted, hq.replayedIds]; exact h.tailing
  · rw [hq.emitted]; exact h.sub
  · rw [hq.emitted, hq.replayedIds]; exact h.covers

/-- A stream that ends keeps what it has shown. -/
theorem TailInv.close (h : s.TailInv base taken) (hq : Quiet s t) (ht : t.loc = .closed) :
    t.TailInv base taken := by
  simp only [TailInv, ht]
  cases hloc : s.loc <;> simp only [TailInv, hloc] at h
  case subscribe | snapshot | replay | cutover => exact .inl ⟨h.1.quiet hq, h.2⟩
  case enter | top | recheck | select => exact .inr (h.quiet hq)
  case closed => exact h.imp (fun h => ⟨h.1.quiet hq, h.2⟩) fun h => h.quiet hq

/-- A replayed id is remembered as one of the snapshot. -/
theorem Replaying.replayOne (h : s.Replaying) (eventId : String) (payload : String × Value) :
    (s.replayOne args eventId payload).Replaying := by
  by_cases hemit : (s.tracker.observeReplay eventId).1 = .emit
  · simp only [BoardStream.replayOne, if_pos hemit]
    refine ⟨?_, ?_, fun id hid => ?_⟩
    · simpa [yield] using h.phase
    · rw [emitted_yield]
      exact (List.append_nil _).trans h.emitted
    · rw [replayedIds_yield]
      rcases CutoverTracker.mem_observeReplay hid with hid | rfl
      · exact List.mem_append_left _ (h.seen id hid)
      · exact List.mem_append_right _ (List.mem_singleton.mpr rfl)
  · simp only [BoardStream.replayOne, if_neg hemit]
    have hold : eventId ∈ s.tracker.seenIds.queue := by
      simpa [CutoverTracker.observeReplay_fst] using hemit
    refine ⟨by simpa using h.phase, h.emitted, fun id hid => ?_⟩
    rcases CutoverTracker.mem_observeReplay hid with hid | rfl
    · exact h.seen id hid
    · exact h.seen _ hold

/-- The cutover starts the tail. -/
theorem Replaying.cutover (h : s.Replaying) (htracker : t.tracker = s.tracker.cutoverToLive base)
    (hemitted : t.emitted = s.emitted) (hreplayed : t.replayedIds = s.replayedIds) :
    t.Tail base [] := by
  refine ⟨?_, ?_, fun e he => by cases he⟩
  · rw [htracker, hemitted, hreplayed, h.emitted]
    exact Tailing.start h.phase h.seen
  · rw [hemitted, h.emitted]
    exact fun e he => by cases he

/-- **One more envelope of the tail**, above all that were received. -/
theorem Tail.observe (h : s.Tail base taken) {e : BoardEventEnvelope String}
    (hlt : ∀ e' ∈ taken, e'.natsSeq < e.natsSeq) :
    (s.observe e).Tail base (taken ++ [e]) := by
  have hpeak : base < e.natsSeq →
      peak BoardEventEnvelope.natsSeq base s.emitted < e.natsSeq := fun hbase =>
    peak_lt_iff.mpr ⟨hbase, fun e' he' => hlt e' (h.sub e' he')⟩
  have hstep := h.tailing.observe e
  have hemitted := s.emitted_observe e
  by_cases hemit : (s.tracker.observeLive e.eventId e.natsSeq).1 = .emit
  · rw [if_pos hemit] at hstep hemitted
    refine ⟨?_, ?_, fun e' he' hbase => ?_⟩
    · rwa [hemitted, replayedIds_observe, tracker_observe]
    · rw [hemitted]
      intro e' he'
      exact (List.mem_append.mp he').elim (fun he' => List.mem_append_left _ (h.sub e' he'))
        (List.mem_append_right _)
    · rw [hemitted, replayedIds_observe]
      rcases List.mem_append.mp he' with he' | he'
      · rcases h.covers e' he' hbase with hold | ⟨e'', he'', hid⟩
        · exact .inl hold
        · exact .inr ⟨e'', by simp [he''], hid⟩
      · obtain rfl := List.mem_singleton.mp he'
        exact .inr ⟨e', by simp, rfl⟩
  · rw [if_neg hemit] at hstep hemitted
    rw [List.append_nil] at hemitted
    refine ⟨?_, ?_, fun e' he' hbase => ?_⟩
    · rwa [hemitted, replayedIds_observe, tracker_observe]
    · rw [hemitted]
      exact fun e' he' => List.mem_append_left _ (h.sub e' he')
    · rw [hemitted, replayedIds_observe]
      rcases List.mem_append.mp he' with he' | he'
      · exact h.covers e' he' hbase
      · obtain rfl := List.mem_singleton.mp he'
        -- above the peak, so only its id keeps it back
        exact (h.tailing.emit_or_seen (hpeak hbase)).resolve_left hemit

end Frame

theorem tailInv_start {args : SubscribeBoardArgs} {base : ℕ} : (start args).TailInv base [] :=
  ⟨⟨rfl, rfl, fun _ hid => by cases hid⟩, rfl⟩

/-- **One step** other than the receipt of an envelope keeps the tail. -/
theorem TailInv.step {args : SubscribeBoardArgs} {base : ℕ}
    {taken : List (BoardEventEnvelope String)} {s t : BoardStream} {a : Input}
    (hs : s.TailInv base taken) (hstep : s.step args a = some t)
    (hcut : ∀ q, s.loc = .cutover q → q = base) (hrecv : ∀ e, a ≠ .recv e) :
    t.TailInv base taken := by
  cases step_cases hstep with
  | snapshot hloc | resume hloc | snapshotRead hloc | replayDone hloc =>
      simp only [TailInv, hloc] at hs
      exact ⟨hs.1.quiet ⟨rfl, rfl, rfl⟩, hs.2⟩
  | replay hloc =>
      simp only [TailInv, hloc] at hs
      exact ⟨(hs.1.replayOne _ _).quiet ⟨rfl, rfl, rfl⟩, hs.2⟩
  | @cutover seq hloc =>
      obtain rfl := hcut _ hloc
      simp only [TailInv, hloc] at hs
      obtain ⟨hreplaying, rfl⟩ := hs
      exact hreplaying.cutover rfl ((emitted_yield (.cutover seq)).trans (by simp [live?]))
        ((replayedIds_yield (.cutover seq)).trans (by simp [replayed?]))
  | enter hloc | passRecheck hloc | pass hloc =>
      simp only [TailInv, hloc] at hs
      exact hs.quiet ⟨rfl, rfl, rfl⟩
  | granted hloc =>
      simp only [TailInv, hloc] at hs
      exact hs.quiet ((quiet_hear true).trans ⟨rfl, rfl, rfl⟩)
  | tick hloc =>
      simp only [TailInv, hloc] at hs
      exact hs.quiet (quiet_heartbeat.trans ⟨rfl, rfl, rfl⟩)
  | channelClosed => exact hs.close ⟨rfl, rfl, rfl⟩ rfl
  | subscribeFails | snapshotFails | answerFails | lagged => exact hs.close (quiet_fail _ _) rfl
  | denied => exact hs.close ((quiet_hear false).trans (quiet_fail _ _)) rfl
  | recv => exact (hrecv _ rfl).elim

/-- **One more envelope** received. -/
theorem TailInv.recv {args : SubscribeBoardArgs} {base : ℕ}
    {taken : List (BoardEventEnvelope String)} {s t : BoardStream} {e : BoardEventEnvelope String}
    (hs : s.TailInv base taken) (hstep : s.step args (.recv e) = some t)
    (hlt : ∀ e' ∈ taken, e'.natsSeq < e.natsSeq) : t.TailInv base (taken ++ [e]) := by
  cases step_cases hstep with
  | recv hloc =>
      simp only [TailInv, hloc] at hs
      exact (hs.observe hlt).quiet ⟨rfl, rfl, rfl⟩

/-! ## What the invariant says of the live envelopes -/

section Emitted

variable {s : BoardStream} {base : ℕ} {taken : List (BoardEventEnvelope String)}

/-- Live envelopes belong to a tail. -/
theorem TailInv.before_or_tail (h : s.TailInv base taken) :
    (s.emitted = [] ∧ taken = []) ∨ s.Tail base taken := by
  cases hloc : s.loc <;> simp only [TailInv, hloc] at h
  case subscribe | snapshot | replay | cutover => exact .inl ⟨h.1.emitted, h.2⟩
  case enter | top | recheck | select => exact .inr h
  case closed => exact h.imp_left fun h => ⟨h.1.emitted, h.2⟩

theorem TailInv.rising (h : s.TailInv base taken) :
    Rising BoardEventEnvelope.natsSeq base s.emitted := by
  rcases h.before_or_tail with ⟨hnil, -⟩ | h
  · rw [hnil]; exact rising_nil
  · exact h.tailing.rising

theorem TailInv.sub (h : s.TailInv base taken) : ∀ e ∈ s.emitted, e ∈ taken := by
  rcases h.before_or_tail with ⟨hnil, -⟩ | h
  · simp [hnil]
  · exact h.sub

/-- **Every envelope above the cutover is emitted**, or its id is one that was emitted or
replayed before. -/
theorem TailInv.covers (h : s.TailInv base taken) {e : BoardEventEnvelope String} (he : e ∈ taken)
    (hbase : base < e.natsSeq) :
    e.eventId ∈ s.replayedIds ∨ ∃ e' ∈ s.emitted, e'.eventId = e.eventId := by
  rcases h.before_or_tail with ⟨-, rfl⟩ | h
  · cases he
  · exact h.covers e he hbase

/-- A remembered id is not emitted again, another one above all envelopes is. -/
theorem TailInv.emit_iff {args : SubscribeBoardArgs} {t : BoardStream}
    {e : BoardEventEnvelope String} (h : s.TailInv base taken)
    (hstep : s.step args (.recv e) = some t) (hlt : ∀ e' ∈ taken, e'.natsSeq < e.natsSeq) :
    t.emitted = s.emitted ++ [e] ∧ base < e.natsSeq ∧ e.eventId ∉ s.tracker.seenIds.queue ∨
      t.emitted = s.emitted ∧ (base < e.natsSeq → e.eventId ∈ s.tracker.seenIds.queue) := by
  cases step_cases hstep with
  | recv hloc =>
      simp only [TailInv, hloc] at h
      have hemitted : BoardStream.emitted { s.observe e with loc := .top } = _ :=
        s.emitted_observe e
      by_cases hbase : base < e.natsSeq
      · have hpeak := peak_lt_iff.mpr ⟨hbase, fun e' he' => hlt e' (h.sub e' he')⟩
        by_cases hid : e.eventId ∈ s.tracker.seenIds.queue
        · rw [CutoverTracker.observeLive_of_mem h.tailing.live hpeak hid] at hemitted
          exact .inr ⟨by simpa using hemitted, fun _ => hid⟩
        · rw [CutoverTracker.observeLive_of_lt h.tailing.live hpeak hid] at hemitted
          exact .inl ⟨by simpa using hemitted, hbase, hid⟩
      · have hle : e.natsSeq ≤ peak BoardEventEnvelope.natsSeq base s.emitted :=
          (not_lt.mp hbase).trans le_peak
        rw [CutoverTracker.observeLive_of_le h.tailing.live hle] at hemitted
        exact .inr ⟨by simpa using hemitted, fun h => (hbase h).elim⟩

/-- Only the receipt of an envelope emits one. -/
theorem emitted_step {args : SubscribeBoardArgs} {t : BoardStream} {a : Input}
    (hstep : s.step args a = some t) (hrecv : ∀ e, a ≠ .recv e) : t.emitted = s.emitted := by
  cases step_cases hstep with
  | snapshot | resume | snapshotRead | replayDone | enter | passRecheck | pass | channelClosed => rfl
  | @replay eventId payload pending lastReplay =>
      have hone : (s.replayOne args eventId payload).emitted = s.emitted := by
        unfold replayOne
        split
        · exact (emitted_yield _).trans (List.append_nil _)
        · rfl
      exact hone
  | @cutover seq => exact (emitted_yield (.cutover seq)).trans (List.append_nil _)
  | tick => exact quiet_heartbeat.emitted
  | granted => exact (quiet_hear true).emitted
  | denied => exact ((quiet_hear false).trans (quiet_fail _ _)).emitted
  | subscribeFails | snapshotFails | answerFails | lagged => exact (quiet_fail _ _).emitted
  | recv => exact (hrecv _ rfl).elim

/-- A stream that awaits its subscription goes on with it, or ends. -/
theorem step_of_subscribe {args : SubscribeBoardArgs} {t : BoardStream} {a : Input}
    (hstep : s.step args a = some t) (hloc : s.loc = .subscribe) :
    a = .subscribed ∨ t.loc = .closed := by
  cases a with
  | subscribed => exact .inl rfl
  | subscribeFails message =>
      simp only [step, hloc] at hstep
      obtain rfl := Option.some.inj hstep
      exact .inr rfl
  | _ => simp [step, hloc] at hstep

/-- While the snapshot is read, the base is open. -/
theorem TailInv.rebase {base' : ℕ} (h : s.TailInv base taken) (hloc : s.loc = .snapshot) :
    s.TailInv base' taken := by
  simp only [TailInv, hloc] at h ⊢
  exact h

/-- A closed stream takes no step. -/
theorem open_of_step {args : SubscribeBoardArgs} {t : BoardStream} {a : Input}
    (hstep : s.step args a = some t) : s.loc ≠ .closed := by
  intro hloc
  cases a <;> simp [step, hloc] at hstep

end Emitted

/-! ## The stream of a resume -/

/-- The stream of a resume reads no snapshot and cuts over at its token. -/
structure Resuming (args : SubscribeBoardArgs) (s : BoardStream) : Prop where
  replayedIds : s.replayedIds = []
  snapshot : s.loc ≠ .snapshot
  base : ∀ q, s.loc.base? = some q → s.loc = .cutover args.sinceSeq

theorem resuming_start (args : SubscribeBoardArgs) : (start args).Resuming args :=
  ⟨rfl, fun h => (by cases h), fun _ h => (by cases h)⟩

theorem Resuming.cutover {args : SubscribeBoardArgs} {s : BoardStream} (hs : s.Resuming args) {q : ℕ}
    (hloc : s.loc = .cutover q) : q = args.sinceSeq := by
  have h := hs.base q (by rw [hloc]; rfl)
  rw [hloc] at h
  exact Loc.cutover.inj h

theorem Resuming.step {args : SubscribeBoardArgs} {s t : BoardStream} {a : Input}
    (hs : s.Resuming args) (hsince : args.sinceSeq ≠ 0) (hstep : s.step args a = some t) :
    t.Resuming args := by
  -- a place at which the stream neither reads a snapshot nor is about to cut over
  have hplace : ∀ {t : BoardStream}, Quiet s t → t.loc.base? = none → t.loc ≠ .snapshot →
      t.Resuming args := fun hq hnone hsnap =>
    ⟨hq.replayedIds.trans hs.replayedIds, hsnap, fun _ hq => by rw [hnone] at hq; cases hq⟩
  cases step_cases hstep with
  | snapshot _ hzero => exact (hsince hzero).elim
  | resume => exact ⟨hs.replayedIds, fun h => (by cases h), fun _ _ => rfl⟩
  | snapshotRead hloc => exact (hs.snapshot hloc).elim
  | replayDone hloc | replay hloc =>
      have := hs.base _ (by rw [hloc]; rfl)
      rw [hloc] at this
      cases this
  | @cutover seq =>
      refine ⟨((replayedIds_yield (.cutover seq)).trans (List.append_nil _)).trans hs.replayedIds,
        fun h => (by cases h), fun _ h => (by cases h)⟩
  | enter | passRecheck | pass | channelClosed =>
      exact hplace ⟨rfl, rfl, rfl⟩ rfl (by simp)
  | granted => exact hplace ((quiet_hear true).trans ⟨rfl, rfl, rfl⟩) rfl (by simp)
  | tick => exact hplace (quiet_heartbeat.trans ⟨rfl, rfl, rfl⟩) rfl (by simp)
  | denied => exact hplace ((quiet_hear false).trans (quiet_fail _ _)) rfl (by simp [fail])
  | subscribeFails | snapshotFails | answerFails | lagged =>
      exact hplace (quiet_fail _ _) rfl (by simp [fail])
  | @recv e =>
      exact ⟨(replayedIds_observe e).trans hs.replayedIds, fun h => (by cases h),
        fun _ h => (by cases h)⟩

/-! ## The stream of a fresh subscription -/

/-- The sequence of the cutover is the resume token, or was read with the snapshot. -/
theorem base_step {args : SubscribeBoardArgs} {s t : BoardStream} {a : Input}
    (hstep : s.step args a = some t) {q : ℕ} (ht : t.loc.base? = some q) :
    s.loc.base? = some q ∨ a = .subscribed ∧ q = args.sinceSeq ∧ args.sinceSeq ≠ 0 ∨
      ∃ columns cards, a = .snapshotRead columns cards q := by
  cases step_cases hstep with
  | resume _ hsince => exact .inr (.inl ⟨rfl, (Option.some.inj ht).symm, hsince⟩)
  | snapshotRead => obtain rfl := Option.some.inj ht; exact .inr (.inr ⟨_, _, rfl⟩)
  | replayDone hloc | replay hloc => exact .inl (by rw [hloc]; exact ht)
  | _ => cases ht

/-- A cutover that is shown was shown before, or was about to be. -/
theorem cutover_step {args : SubscribeBoardArgs} {s t : BoardStream} {a : Input}
    (hstep : s.step args a = some t) {q : ℕ} (h : .yielded (.cutover q) ∈ t.trace) :
    .yielded (.cutover q) ∈ s.trace ∨ s.loc = .cutover q := by
  cases step_cases hstep with
  | snapshot | resume | snapshotRead | replayDone | enter | passRecheck | pass | channelClosed =>
      exact .inl h
  | @cutover seq hloc =>
      rcases List.mem_append.mp h with h | h
      · exact .inl h
      · obtain rfl : q = seq := by simpa using h
        exact .inr hloc
  | @replay eventId payload pending lastReplay =>
      left
      have h : .yielded (.cutover q) ∈ (s.replayOne args eventId payload).trace := h
      unfold replayOne at h
      split at h
      · simpa [yield] using h
      · exact h
  | @recv e =>
      left
      have h : .yielded (.cutover q) ∈ (s.observe e).trace := h
      unfold observe at h
      split at h
      · simpa [yield] using h
      · exact h
  | granted | denied | answerFails | subscribeFails | snapshotFails | lagged | tick =>
      left
      simpa [hear, fail, yield] using h

end BoardStream

end Kanban.Services
