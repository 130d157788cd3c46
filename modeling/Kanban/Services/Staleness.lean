import Kanban.Services.BoardStream

/-!
# How stale the authorization of a board stream may be

An open board stream in a world that moves on: time passes, the visibility of the board and the
`view` relation of the subject change, the token expires.  From each such moment on the subject
should soon get no more of the board.  The stream itself reads the visibility once, before it is
built, never looks at the expiry, and asks for the relation only at the head of a pass.

## Main definitions

* `StreamWorld` — the clock, the board's visibility, the subject's relation, and since when they bar it.
* `TimedStream`, `TimedStream.step` — the stream in that world, with the answer of the backend on its way.
* `Item.isEnvelope` — the item is a board envelope other than a heartbeat.
* `TimedStream.Bounded` — such envelopes are shown only within the bound after such a moment.
* `TimedStream.Checked` — the condition under which a step keeps to that.
-/

namespace Kanban.Services

open Machine Kanban.Realtime

/-! ## The world of a stream -/

/-- What surrounds a stream.  `barredSince` is the moment at which the board was made private
while the subject had no `view` on it, `revokedSince` the moment at which that `view` was taken
away; both are forgotten when the condition is lifted. -/
structure StreamWorld where
  now : ℕ
  isPrivate : Bool
  view : Bool
  barredSince : Option ℕ
  revokedSince : Option ℕ
  deriving DecidableEq, Repr

inductive WorldChange
  | advance (now : ℕ)
  | setVisibility (isPrivate : Bool)
  | setView (view : Bool)

namespace StreamWorld

/-- A world in which a stream is opened. -/
def opening (now : ℕ) (isPrivate view : Bool) : StreamWorld := ⟨now, isPrivate, view, none, none⟩

def setVisibility (w : StreamWorld) (isPrivate : Bool) : StreamWorld :=
  { w with
    isPrivate := isPrivate
    barredSince :=
      if isPrivate ∧ ¬ w.view then if w.isPrivate then w.barredSince else some w.now else none }

def setView (w : StreamWorld) (view : Bool) : StreamWorld :=
  { w with
    view := view
    barredSince := if view then none else w.barredSince
    revokedSince := if view then none else if w.view then some w.now else w.revokedSince }

/-- The clock never goes back. -/
def change (w : StreamWorld) : WorldChange → Option StreamWorld
  | .advance now => if w.now ≤ now then some { w with now := now } else none
  | .setVisibility isPrivate => some (w.setVisibility isPrivate)
  | .setView view => some (w.setView view)

/-- The moment is one from which the subject may not see the board. -/
def LostAt (w : StreamWorld) (m : ℕ) : Prop := w.barredSince = some m ∨ w.revokedSince = some m

/-- No such moment lies more than `bound` back. -/
def ViewWithin (w : StreamWorld) (bound : ℕ) : Prop :=
  (∀ m ∈ w.barredSince, w.now ≤ m + bound) ∧ ∀ m ∈ w.revokedSince, w.now ≤ m + bound

theorem viewWithin_iff {w : StreamWorld} {bound : ℕ} :
    w.ViewWithin bound ↔ ∀ m, w.LostAt m → w.now ≤ m + bound := by
  simp only [ViewWithin, LostAt, Option.mem_def, or_imp, forall_and]

@[simp] theorem not_lostAt_opening {now m : ℕ} {isPrivate view : Bool} :
    ¬ (opening now isPrivate view).LostAt m := by
  simp [LostAt, opening]

/-- Every moment lies in the past, and while the subject has the relation there is none. -/
structure Coherent (w : StreamWorld) : Prop where
  past : ∀ m, w.LostAt m → m ≤ w.now
  view : w.view → ∀ m, ¬ w.LostAt m

theorem coherent_opening {now : ℕ} {isPrivate view : Bool} :
    (opening now isPrivate view).Coherent := by
  constructor <;> simp

/-- **A change** brings up no moment but the present. -/
theorem LostAt.of_change {w w' : StreamWorld} {c : WorldChange} {m : ℕ} (h : w'.LostAt m)
    (hc : w.change c = some w') : w.LostAt m ∨ m = w.now := by
  cases c with
  | advance now =>
      simp only [change] at hc
      split at hc
      · obtain rfl := Option.some.inj hc; exact .inl h
      · cases hc
  | setVisibility isPrivate =>
      obtain rfl := Option.some.inj hc
      simp only [LostAt, setVisibility] at h ⊢
      grind
  | setView view =>
      obtain rfl := Option.some.inj hc
      simp only [LostAt, setView] at h ⊢
      grind

theorem now_le_of_change {w w' : StreamWorld} {c : WorldChange} (hc : w.change c = some w') :
    w.now ≤ w'.now := by
  cases c with
  | advance now =>
      simp only [change] at hc
      split at hc
      · obtain rfl := Option.some.inj hc; assumption
      · cases hc
  | setVisibility | setView => obtain rfl := Option.some.inj hc; exact le_rfl

theorem Coherent.change {w w' : StreamWorld} {c : WorldChange} (h : w.Coherent)
    (hc : w.change c = some w') : w'.Coherent where
  past m hm := by
    have hnow := now_le_of_change hc
    rcases hm.of_change hc with hm | rfl
    · exact (h.past m hm).trans hnow
    · exact hnow
  view := by
    have hview := h.view
    cases c with
    | advance now =>
        simp only [StreamWorld.change] at hc
        split at hc
        · obtain rfl := Option.some.inj hc; exact hview
        · cases hc
    | setVisibility isPrivate =>
        obtain rfl := Option.some.inj hc
        simp only [LostAt, setVisibility] at hview ⊢
        grind
    | setView view =>
        obtain rfl := Option.some.inj hc
        simp only [LostAt, setView] at hview ⊢
        grind

end StreamWorld

/-! ## A stream in its world -/

/-- The item is a board envelope other than a heartbeat: a replayed one, the cutover or a live
one. -/
def Item.isEnvelope : Item → Bool
  | .snapshot _ | .cutover _ | .live _ => true
  | .heartbeat | .error _ => false

/-- The item that an observation shows. -/
def Obs.item? {κ : Type*} : Obs κ → Option κ
  | .yielded item => some item
  | .answered .. => none

/-- The items that the stream yields from `s` to `t`. -/
def BoardStream.yields (s t : BoardStream) : List Item :=
  (t.trace.drop s.trace.length).filterMap Obs.item?

/-- An open stream.  `answer` is what the backend found on the current recheck, and when;
`heardAt` is when it found the `view` that the stream relies on, the opening at first; `shown` are
the items the subject got, each with the world at that moment. -/
structure TimedStream where
  stream : BoardStream
  world : StreamWorld
  answer : Option (Bool × ℕ)
  heardAt : ℕ
  shown : List (Item × StreamWorld)

inductive StreamEvent
  | world (c : WorldChange)
  /-- The backend evaluates the recheck. -/
  | evaluate
  | stream (a : Input)

namespace TimedStream

variable (args : SubscribeBoardArgs) (heartbeatInterval exp : ℕ)

/-- `subscribe_board`: the visibility is read once and handed to the stream. -/
def openArgs (w : StreamWorld) : SubscribeBoardArgs := { args with isPrivate := w.isPrivate }

/-- The stream is opened in the world `w`. -/
def start (w : StreamWorld) : TimedStream where
  stream := .start args
  world := w
  answer := none
  heardAt := w.now
  shown := []

/-- The clock readings of the stream are those of the world, and the answer that it gets is the
one the backend found. -/
def Admits (s : TimedStream) : Input → Prop
  | .enter now | .pass now => now = s.world.now
  | .answer granted now => now = s.world.now ∧ s.answer.map Prod.fst = some granted
  | _ => True

instance (s : TimedStream) (a : Input) : Decidable (s.Admits a) := by
  cases a <;> unfold Admits <;> infer_instance

/-- When the `view` was found that the stream relies on after the input. -/
def hearing (s : TimedStream) : Input → ℕ
  | .answer true _ => (s.answer.map Prod.snd).getD s.heardAt
  | _ => s.heardAt

def step (s : TimedStream) : StreamEvent → Option TimedStream
  | .world c => (s.world.change c).map fun w => { s with world := w }
  | .evaluate =>
      match s.stream.loc with
      | .recheck => some { s with answer := some (s.world.view, s.world.now) }
      | _ => none
  | .stream a =>
      if s.Admits a then
        (s.stream.step args a).map fun t =>
          { s with
            stream := t
            answer := none
            heardAt := s.hearing a
            shown := s.shown ++ (s.stream.yields t).map (·, s.world) }
      else none

/-- The time that the stream has to notice: a recheck interval and a heartbeat. -/
def staleness : ℕ := args.permissionRecheckInterval + heartbeatInterval

/-- An envelope shown in the world `w` is within the bound. -/
def Timely (w : StreamWorld) : Prop :=
  w.now ≤ exp + staleness args heartbeatInterval ∧
    w.ViewWithin (staleness args heartbeatInterval)

/-- The subject got envelopes of the board only within a recheck interval and a heartbeat after it
lost the view of the board or its token expired. -/
def Bounded (s : TimedStream) : Prop :=
  ∀ x ∈ s.shown, x.1.isEnvelope → Timely args heartbeatInterval exp x.2

/-- The input lets an envelope through. -/
def Shows (s : BoardStream) : Input → Prop
  | .cutover => True
  | .replay eventId =>
      match s.loc with
      | .replay (_ :: _) _ => (s.tracker.observeReplay eventId).1 = .emit
      | _ => False
  | .recv e => (s.tracker.observeLive e.eventId e.natsSeq).1 = .emit
  | _ => False

/-- The recheck vouches for an envelope: the stream is one that rechecks, its last recheck was
answered at the moment it was evaluated, and the envelope comes in within a heartbeat interval of
the head of the pass. -/
def Vouched (s : TimedStream) : Input → Prop
  | .recv _ => args.isPrivate ∧ s.stream.lastPermissionRecheck = s.heardAt ∧
      s.world.now ≤ s.stream.topAt + heartbeatInterval
  | _ => False

/-- The condition on a step: an envelope is let through while the token's expiry, which nothing
checks, lies within the bound; and so does, unless the recheck vouches for it, the loss of the
view. -/
def Checked (s : TimedStream) : StreamEvent → Prop
  | .stream a => Shows s.stream a →
      s.world.now ≤ exp + staleness args heartbeatInterval ∧
      (¬ s.Vouched args heartbeatInterval a →
        s.world.ViewWithin (staleness args heartbeatInterval))
  | _ => True

/-! ## What a step shows -/

section Yields

variable {args : SubscribeBoardArgs} {s t : BoardStream} {a : Input}

theorem yields_of_trace {obs : List (Obs Item)} (h : t.trace = s.trace ++ obs) :
    s.yields t = obs.filterMap Obs.item? := by
  simp [BoardStream.yields, h]

/-- A step adds to the trace what it lets through and at most items that are no envelopes. -/
theorem exists_obs (h : s.step args a = some t) : ∃ obs, t.trace = s.trace ++ obs ∧
    ((∃ item ∈ obs.filterMap Obs.item?, item.isEnvelope) ↔ Shows s a) := by
  cases BoardStream.step_cases h with
  | snapshot | resume | snapshotRead | enter | passRecheck | pass | channelClosed =>
      exact ⟨[], (List.append_nil _).symm, by simp [Shows]⟩
  | replayDone hloc => exact ⟨[], (List.append_nil _).symm, by simp [Shows, hloc]⟩
  | cutover => exact ⟨[.yielded _], rfl, by simp [Shows, Obs.item?, Item.isEnvelope]⟩
  | subscribeFails | snapshotFails | answerFails | lagged | tick =>
      exact ⟨[_], rfl, by simp [Shows, Obs.item?, Item.isEnvelope]⟩
  | granted => exact ⟨[_], rfl, by simp [Shows, Obs.item?]⟩
  | denied =>
      refine ⟨[.answered (BoardStream.recheckQuery args) false,
        .yielded (.error ⟨.permissionDenied, "permission revoked mid-stream"⟩)], ?_, ?_⟩
      · simp [BoardStream.fail, BoardStream.yield, BoardStream.hear]
      · simp [Shows, Obs.item?, Item.isEnvelope]
  | @replay eventId payload pending lastReplay hloc =>
      by_cases hemit : (s.tracker.observeReplay eventId).1 = .emit
      · exact ⟨[.yielded _], by simp only [BoardStream.replayOne, if_pos hemit]; rfl,
          by simp [Shows, hloc, hemit, Obs.item?, Item.isEnvelope]⟩
      · exact ⟨[], by simp [BoardStream.replayOne, if_neg hemit], by simp [Shows, hloc, hemit]⟩
  | @recv e hloc =>
      by_cases hemit : (s.tracker.observeLive e.eventId e.natsSeq).1 = .emit
      · exact ⟨[.yielded _], by simp only [BoardStream.observe, if_pos hemit]; rfl,
          by simp [Shows, hemit, Obs.item?, Item.isEnvelope]⟩
      · exact ⟨[], by simp [BoardStream.observe, if_neg hemit], by simp [Shows, hemit]⟩

/-- **A step** shows an envelope exactly when it lets one through. -/
theorem yields_envelope (h : s.step args a = some t) :
    (∃ item ∈ s.yields t, item.isEnvelope) ↔ Shows s a := by
  obtain ⟨obs, htrace, hobs⟩ := exists_obs h
  rwa [yields_of_trace htrace]

end Yields

/-! ## What the stream may rely on -/

/-- What holds of a session: the stream runs on the clock of the world, every loss of the view is
later than the grant it relies on, and a private board's stream waits in a pass that began within
a recheck interval of its last recheck. -/
structure Fresh (s : TimedStream) : Prop where
  coherent : s.world.Coherent
  clock : s.stream.clock ≤ s.world.now
  topAt : s.stream.topAt ≤ s.stream.clock
  heard : s.heardAt ≤ s.world.now
  lost : ∀ m, s.world.LostAt m → s.heardAt ≤ m
  answer : ∀ granted e, s.answer = some (granted, e) → s.heardAt ≤ e ∧ e ≤ s.world.now ∧
    (granted → ∀ m, s.world.LostAt m → e ≤ m)
  due : s.stream.loc = .select → args.isPrivate →
    s.stream.topAt ≤ s.stream.lastPermissionRecheck + args.permissionRecheckInterval

variable {args heartbeatInterval exp}

theorem fresh_start {now : ℕ} {isPrivate view : Bool} :
    (start args (.opening now isPrivate view)).Fresh args where
  coherent := StreamWorld.coherent_opening
  clock := Nat.zero_le _
  topAt := le_rfl
  heard := le_rfl
  lost m hm := absurd hm StreamWorld.not_lostAt_opening
  answer _ _ h := by cases h
  due h := by cases h

theorem Fresh.world {s : TimedStream} (hs : s.Fresh args) {c : WorldChange} {w : StreamWorld}
    (hc : s.world.change c = some w) : ({ s with world := w } : TimedStream).Fresh args where
  coherent := hs.coherent.change hc
  clock := hs.clock.trans (StreamWorld.now_le_of_change hc)
  topAt := hs.topAt
  heard := hs.heard.trans (StreamWorld.now_le_of_change hc)
  lost m hm := by
    rcases hm.of_change hc with hm | rfl
    · exact hs.lost m hm
    · exact hs.heard
  answer granted e h := by
    obtain ⟨hheard, hpast, hlost⟩ := hs.answer granted e h
    refine ⟨hheard, hpast.trans (StreamWorld.now_le_of_change hc), fun hgranted m hm => ?_⟩
    rcases hm.of_change hc with hm | rfl
    · exact hlost hgranted m hm
    · exact hpast
  due := hs.due

/-- What the backend finds when it evaluates the recheck. -/
theorem Fresh.evaluate {s : TimedStream} (hs : s.Fresh args) :
    ({ s with answer := some (s.world.view, s.world.now) } : TimedStream).Fresh args where
  coherent := hs.coherent
  clock := hs.clock
  topAt := hs.topAt
  heard := hs.heard
  lost := hs.lost
  answer granted e h := by
    obtain ⟨rfl, rfl⟩ := Prod.mk.inj (Option.some.inj h)
    exact ⟨hs.heard, le_rfl, fun hview m hm => absurd hm (hs.coherent.view hview m)⟩
  due := hs.due

/-- The clock and the recheck times after a step of the stream. -/
theorem times_of_step {s : TimedStream} {a : Input} {t : BoardStream} (hs : s.Fresh args)
    (hadm : s.Admits a) (h : s.stream.step args a = some t) :
    t.clock ≤ s.world.now ∧ t.topAt ≤ t.clock ∧ (t.loc = .select → args.isPrivate →
      t.topAt ≤ t.lastPermissionRecheck + args.permissionRecheckInterval) := by
  have hclock := hs.clock
  have htop := hs.topAt
  cases BoardStream.step_cases h with
  | snapshot | resume | snapshotRead | replayDone | cutover | subscribeFails | snapshotFails
  | denied | answerFails | lagged | channelClosed | tick =>
      exact ⟨hclock, htop, fun hloc => by cases hloc⟩
  | replay =>
      simp only [BoardStream.replayOne]
      split <;> exact ⟨hclock, htop, fun hloc => by cases hloc⟩
  | recv =>
      simp only [BoardStream.observe]
      split <;> exact ⟨hclock, htop, fun hloc => by cases hloc⟩
  | enter | passRecheck =>
      obtain rfl : _ = s.world.now := hadm
      exact ⟨le_rfl, le_rfl, fun hloc => by cases hloc⟩
  | pass hloc hnow hnot =>
      obtain rfl : _ = s.world.now := hadm
      refine ⟨le_rfl, le_rfl, fun _ hpriv => ?_⟩
      have : ¬ args.permissionRecheckInterval ≤ s.world.now - s.stream.lastPermissionRecheck :=
        fun hdue => hnot ⟨hpriv, hdue⟩
      dsimp only
      omega
  | granted hloc hnow =>
      obtain rfl : _ = s.world.now := hadm.1
      exact ⟨le_rfl, htop.trans hnow, fun _ _ => (htop.trans hnow).trans (Nat.le_add_right _ _)⟩

/-- Only a grant moves the moment that the stream relies on, to when it was found. -/
theorem hearing_eq {s : TimedStream} {a : Input} (hadm : s.Admits a) :
    s.hearing a = s.heardAt ∨ s.answer = some (true, s.hearing a) := by
  cases a with
  | answer granted now =>
      cases granted with
      | false => exact .inl rfl
      | true =>
          obtain ⟨⟨g, e⟩, hans, hg⟩ := Option.map_eq_some_iff.mp hadm.2
          obtain rfl : g = true := hg
          exact .inr (by simp [hearing, hans])
  | _ => exact .inl rfl

/-- **One step** keeps what the stream may rely on. -/
theorem Fresh.step {s t : TimedStream} {e : StreamEvent} (hs : s.Fresh args)
    (h : s.step args e = some t) : t.Fresh args := by
  cases e with
  | world c =>
      obtain ⟨w, hw, rfl⟩ := Option.map_eq_some_iff.mp h
      exact hs.world hw
  | evaluate =>
      simp only [TimedStream.step] at h
      split at h
      · obtain rfl := Option.some.inj h; exact hs.evaluate
      · cases h
  | stream a =>
      simp only [TimedStream.step] at h
      split at h
      · rename_i hadm
        obtain ⟨u, hu, rfl⟩ := Option.map_eq_some_iff.mp h
        obtain ⟨hclock, htop, hdue⟩ := times_of_step hs hadm hu
        have hheard : s.hearing a ≤ s.world.now ∧
            ∀ m, s.world.LostAt m → s.hearing a ≤ m := by
          rcases hearing_eq hadm with heq | hans
          · rw [heq]; exact ⟨hs.heard, hs.lost⟩
          · obtain ⟨-, hpast, hlost⟩ := hs.answer _ _ hans
            exact ⟨hpast, hlost rfl⟩
        exact ⟨hs.coherent, hclock, htop, hheard.1, hheard.2, nofun, hdue⟩
      · cases h

/-- **An envelope that the recheck vouches for** comes in within the bound. -/
theorem Fresh.viewWithin {s : TimedStream} {a : Input} {t : BoardStream} (hs : s.Fresh args)
    (h : s.stream.step args a = some t) (hv : s.Vouched args heartbeatInterval a) :
    s.world.ViewWithin (staleness args heartbeatInterval) := by
  cases a with
  | recv e =>
      obtain ⟨hpriv, hlast, hwake⟩ := hv
      have hloc : s.stream.loc = .select := by
        cases BoardStream.step_cases h with | recv hloc => exact hloc
      have hdue := hs.due hloc hpriv
      refine StreamWorld.viewWithin_iff.mpr fun m hm => ?_
      have hlost := hs.lost m hm
      unfold staleness
      omega
  | _ => exact hv.elim

/-- **One step shows an envelope too late exactly when it misses the condition.** -/
theorem bounded_step {s t : TimedStream} {e : StreamEvent} (hs : s.Fresh args)
    (h : s.step args e = some t) : t.Bounded args heartbeatInterval exp ↔
      s.Bounded args heartbeatInterval exp ∧ s.Checked args heartbeatInterval exp e := by
  cases e with
  | world c =>
      obtain ⟨w, hw, rfl⟩ := Option.map_eq_some_iff.mp h
      exact (and_iff_left trivial).symm
  | evaluate =>
      simp only [TimedStream.step] at h
      split at h
      · obtain rfl := Option.some.inj h; exact (and_iff_left trivial).symm
      · cases h
  | stream a =>
      simp only [TimedStream.step] at h
      split at h
      · obtain ⟨u, hu, rfl⟩ := Option.map_eq_some_iff.mp h
        -- what is new is shown in the present world
        have hnew : (∀ item ∈ s.stream.yields u, item.isEnvelope →
            Timely args heartbeatInterval exp s.world) ↔
            (Shows s.stream a → Timely args heartbeatInterval exp s.world) := by
          rw [← yields_envelope hu]
          exact ⟨fun h ⟨item, hmem, henv⟩ => h item hmem henv,
            fun h item hmem henv => h ⟨item, hmem, henv⟩⟩
        have hchecked : (Shows s.stream a → Timely args heartbeatInterval exp s.world) ↔
            s.Checked args heartbeatInterval exp (.stream a) := by
          refine imp_congr_right fun _ => and_congr_right fun _ => ⟨fun h _ => h, fun h => ?_⟩
          by_cases hv : s.Vouched args heartbeatInterval a
          · exact hs.viewWithin hu hv
          · exact h hv
        rw [← hchecked, ← hnew]
        simp only [Bounded, List.mem_append, List.mem_map, or_imp, forall_and,
          forall_exists_index, and_imp]
        refine and_congr_right fun _ => ⟨fun h item hmem henv => ?_, fun h x item hmem hx => ?_⟩
        · exact h _ item hmem rfl henv
        · subst hx
          exact h item hmem
      · cases h

/-- **A stream is bounded exactly along checked runs.** -/
theorem bounded_iff_checked {now : ℕ} {isPrivate view : Bool} {tr : List StreamEvent}
    {s : TimedStream} (h : Exec (step (openArgs args (.opening now isPrivate view)))
      (start (openArgs args (.opening now isPrivate view)) (.opening now isPrivate view)) tr s) :
    s.Bounded (openArgs args (.opening now isPrivate view)) heartbeatInterval exp ↔
      ExecWhile (step (openArgs args (.opening now isPrivate view)))
        (Checked (openArgs args (.opening now isPrivate view)) heartbeatInterval exp)
        (start (openArgs args (.opening now isPrivate view)) (.opening now isPrivate view)) tr s :=
  h.iff_execWhile (I := Fresh _) fresh_start (fun _ _ _ hs h => hs.step h) nofun
    fun _ _ _ hs h => bounded_step hs h

/-! ## Streams that go on -/

section Streams

/-- A stream that resumes at sequence 1, with a recheck interval of 1. -/
private def tailArgs : SubscribeBoardArgs where
  auth := ⟨some "acme", some "ann"⟩
  boardId := "b"
  isPrivate := false
  permissionRecheckInterval := 1
  tenantId := "acme"
  sinceSeq := 1
  cutoverSeenCapacity := 4

private def cardMoved (eventId : String) (natsSeq : ℕ) : BoardEventEnvelope String :=
  ⟨some "b", eventId, natsSeq, natsSeq, "bob", "CardMoved", .object []⟩

/-- The stream is opened at 0 and comes to wait for an envelope. -/
private def opened : List StreamEvent :=
  [.stream .subscribed, .stream .cutover, .stream (.enter 0), .stream (.pass 0)]

/-- An envelope, a recheck with an answer at once, the revocation and another envelope. -/
private def revokedInTime : List StreamEvent :=
  opened ++ [.stream (.recv (cardMoved "e2" 2)), .world (.advance 1), .stream (.pass 1), .evaluate,
    .stream (.answer true 1), .world (.setView false), .stream (.recv (cardMoved "e3" 3))]

/-- `bounded_iff_checked` for a private board whose `view` is taken away between two rechecks. -/
theorem bounded_iff_checked_revokedInTime : ∃ s,
    Exec (step (openArgs tailArgs (.opening 0 true true)))
      (start (openArgs tailArgs (.opening 0 true true)) (.opening 0 true true)) revokedInTime s ∧
    s.shown.length = 3 ∧ s.world.revokedSince = some 1 ∧
    (s.Bounded (openArgs tailArgs (.opening 0 true true)) 1 9 ↔
      ExecWhile (step (openArgs tailArgs (.opening 0 true true)))
        (Checked (openArgs tailArgs (.opening 0 true true)) 1 9)
        (start (openArgs tailArgs (.opening 0 true true)) (.opening 0 true true))
        revokedInTime s) := by
  obtain ⟨s, hrun, hshown, hrevoked⟩ : ∃ s,
      Machine.run (step (openArgs tailArgs (.opening 0 true true)))
        (start (openArgs tailArgs (.opening 0 true true)) (.opening 0 true true))
        revokedInTime = some s ∧ s.shown.length = 3 ∧ s.world.revokedSince = some 1 :=
    ⟨_, rfl, rfl, rfl⟩
  exact ⟨s, exec_of_run hrun, hshown, hrevoked, bounded_iff_checked (exec_of_run hrun)⟩

/-- The board is made private and, long after, an envelope comes in. -/
private def madePrivate : List StreamEvent :=
  opened ++ [.world (.setVisibility true), .world (.advance 9), .stream (.recv (cardMoved "e2" 2))]

/-- **A stream opened on a public board goes on** when the board is made private, and a private
board's stream goes on after the token has expired. -/
theorem not_bounded_madePrivate :
    ¬ (∀ (args : SubscribeBoardArgs) (heartbeatInterval exp now : ℕ) (isPrivate view : Bool)
      (tr : List StreamEvent) (s : TimedStream),
      Exec (step (openArgs args (.opening now isPrivate view)))
        (start (openArgs args (.opening now isPrivate view)) (.opening now isPrivate view)) tr s →
      s.Bounded (openArgs args (.opening now isPrivate view)) heartbeatInterval exp) ∧
    ¬ (∀ (args : SubscribeBoardArgs) (heartbeatInterval exp now : ℕ)
      (tr : List StreamEvent) (s : TimedStream),
      Exec (step (openArgs args (.opening now true true)))
        (start (openArgs args (.opening now true true)) (.opening now true true)) tr s →
      s.world.view → s.Bounded (openArgs args (.opening now true true)) heartbeatInterval exp) := by
  constructor
  · intro hall
    obtain ⟨s, hrun, hshown⟩ : ∃ s,
        Machine.run (step (openArgs tailArgs (.opening 0 false false)))
          (start (openArgs tailArgs (.opening 0 false false)) (.opening 0 false false))
          madePrivate = some s ∧
        s.shown = [(.cutover 1, .opening 0 false false),
          (.live (cardMoved "e2" 2), ⟨9, true, false, some 0, none⟩)] :=
      ⟨_, rfl, rfl⟩
    have h := (hall tailArgs 1 99 0 false false madePrivate s (exec_of_run hrun) _
      (hshown ▸ List.mem_cons_of_mem _ (List.mem_singleton_self _)) rfl).2.1
    exact absurd (h 0 rfl) (by decide)
  · intro hall
    obtain ⟨s, hrun, hview, hshown⟩ : ∃ s,
        Machine.run (step (openArgs tailArgs (.opening 0 true true)))
          (start (openArgs tailArgs (.opening 0 true true)) (.opening 0 true true))
          (opened ++ [.world (.advance 9), .stream (.recv (cardMoved "e2" 2))]) = some s ∧
        s.world.view = true ∧ s.shown = [(.cutover 1, .opening 0 true true),
          (.live (cardMoved "e2" 2), ⟨9, true, true, none, none⟩)] :=
      ⟨_, rfl, rfl, rfl⟩
    have h := (hall tailArgs 1 5 0 _ s (exec_of_run hrun) hview _
      (hshown ▸ List.mem_cons_of_mem _ (List.mem_singleton_self _)) rfl).1
    exact absurd h (by decide)

end Streams

end TimedStream

end Kanban.Services
