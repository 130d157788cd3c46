import Kanban.Realtime.JetStream

/-!
# The live tail of one subject

`realtime/registry.rs`, as one subscriber sees it.  The pump of a push consumer takes the retained
messages of its subject in the order of their sequences, stamps each envelope with its sequence
and sends it to the receivers that exist at that moment.  A consumer starts from the first retained
message when it is created; a subscriber that joins a channel later, or whose receiver is created
after the pump was spawned, sees only what the pump sends from then on.  A pump that ends by itself
leaves its channel in the registry, so a subscriber may join a channel whose pump is gone, and its
receiver stays open.

## Main definitions

* `LiveTail` — the pump of a subject and the receiver of the subscriber.
* `LiveTail.pump`, `LiveTail.join`, `LiveTail.take` — its steps.
* `LiveTail.Fed` — what was received are messages of the subject, in order.
* `LiveTail.InReach` — a message has been received, or will be.
* `LiveTail.Contiguous` — no message is missing among those received.
-/

namespace Kanban.Realtime

variable {ι : Type*}

/-- The envelope of a message, stamped with the authoritative stream sequence. -/
def stamp (m : Message ι) : BoardEventEnvelope ι := { m.envelope with natsSeq := m.seq }

@[simp] theorem stamp_natsSeq (m : Message ι) : (stamp m).natsSeq = m.seq := rfl

@[simp] theorem stamp_eventId (m : Message ι) : (stamp m).eventId = m.envelope.eventId := rfl

/-- The channel of a subject and the receiver of one subscriber.  `sender` tells whether the registry
holds the channel; `consumer` is the sequence that its pump has passed, while it runs; `receiver`
holds the envelopes that wait, once it exists. -/
structure LiveTail (ι : Type*) where
  sender : Bool
  consumer : Option ℕ
  receiver : Option (List (BoardEventEnvelope ι))

namespace LiveTail

def new : LiveTail ι := ⟨false, none, none⟩

/-- The envelopes that wait in the receiver. -/
def buffer (t : LiveTail ι) : List (BoardEventEnvelope ι) := t.receiver.getD []

/-- A consumer is created for the channel that the subscriber is going to join. -/
def openConsumer (t : LiveTail ι) : Option (LiveTail ι) :=
  match t.receiver with
  | none => some { t with sender := true, consumer := some 0 }
  | some _ => none

section Pump

variable [DecidableEq ι]

/-- The next retained message of the subject. -/
def next (log : JetStream ι) (subject : Subject ι) (evicted cursor : ℕ) : Option (Message ι) :=
  log.messages.find? fun m => m.subject = subject ∧ cursor < m.seq ∧ evicted < m.seq

/-- The pump sends the next message to the receivers. -/
def pump (log : JetStream ι) (subject : Subject ι) (evicted : ℕ) (t : LiveTail ι) :
    Option (LiveTail ι) :=
  match t.consumer with
  | none => none
  | some cursor => (next log subject evicted cursor).map fun m =>
      { t with consumer := some m.seq, receiver := t.receiver.map (· ++ [stamp m]) }

end Pump

/-- The subscriber's receiver is created on the channel. -/
def join (t : LiveTail ι) : Option (LiveTail ι) :=
  match t.sender, t.receiver with
  | true, none => some { t with receiver := some [] }
  | _, _ => none

/-- The pump task returns by itself: its message stream failed to open or ended. -/
def pumpEnds (t : LiveTail ι) : LiveTail ι := { t with consumer := none }

/-- The channel is removed and its pump aborted. -/
def abort (t : LiveTail ι) : LiveTail ι := { t with sender := false, consumer := none }

/-- The sender and the pump are gone, and nothing waits. -/
def closed (t : LiveTail ι) : Bool := !t.sender && t.consumer.isNone && t.buffer.isEmpty

/-- The subscriber receives the next envelope. -/
def take (t : LiveTail ι) : Option (BoardEventEnvelope ι × LiveTail ι) :=
  match t.receiver with
  | some (e :: buffer) => some (e, { t with receiver := some buffer })
  | _ => none

/-- The receiver has lagged: of the envelopes that wait, the `n` oldest are overwritten. -/
def skip (t : LiveTail ι) (n : ℕ) : LiveTail ι :=
  { t with receiver := t.receiver.map (List.drop n) }

@[simp] theorem buffer_skip (t : LiveTail ι) (n : ℕ) : (t.skip n).buffer = t.buffer.drop n := by
  unfold skip buffer
  cases t.receiver <;> simp

theorem openConsumer_eq {t u : LiveTail ι} (h : t.openConsumer = some u) :
    t.receiver = none ∧ u = ⟨true, some 0, none⟩ := by
  unfold openConsumer at h
  split at h
  · rename_i hnone
    exact ⟨hnone, by rw [← Option.some.inj h, hnone]⟩
  · cases h

theorem join_eq {t u : LiveTail ι} (h : t.join = some u) :
    ∃ c, t = ⟨true, c, none⟩ ∧ u = ⟨true, c, some []⟩ := by
  unfold join at h
  split at h
  · rename_i hsender hnone
    refine ⟨t.consumer, ?_, by rw [← Option.some.inj h, hsender]⟩
    rw [← hsender, ← hnone]
  · cases h

theorem take_eq {t u : LiveTail ι} {e : BoardEventEnvelope ι} (h : t.take = some (e, u)) :
    t.buffer = e :: u.buffer ∧ u.sender = t.sender ∧ u.consumer = t.consumer ∧
      u.receiver = some u.buffer := by
  unfold take at h
  split at h
  · rename_i hbuf
    obtain ⟨rfl, rfl⟩ := Prod.ext_iff.mp (Option.some.inj h)
    exact ⟨by simp [buffer, hbuf], rfl, rfl, rfl⟩
  · cases h

section Pump

variable [DecidableEq ι] {log : JetStream ι} {subject : Subject ι} {evicted : ℕ}

/-- The pump passes over no retained message of its subject. -/
theorem next_some {cursor : ℕ} {m : Message ι} (h : next log subject evicted cursor = some m) :
    m ∈ log.messages ∧ m.subject = subject ∧ cursor < m.seq ∧ evicted < m.seq ∧
      ∀ n ∈ log.messages, n.subject = subject → cursor < n.seq → evicted < n.seq →
        n = m ∨ m.seq < n.seq := by
  obtain ⟨hm, pre, post, hsplit, hpre⟩ := List.find?_eq_some_iff_append.mp h
  simp only [decide_eq_true_eq] at hm
  refine ⟨by simp [hsplit], hm.1, hm.2.1, hm.2.2, fun n hn hsub hcur hev => ?_⟩
  have hordered := log.ordered
  rw [hsplit] at hn hordered
  rcases List.mem_append.mp hn with hn | hn
  · have hnot := hpre n hn
    simp [hsub, hcur, hev] at hnot
  · rcases List.mem_cons.mp hn with rfl | hn
    · exact .inl rfl
    · exact .inr ((List.pairwise_cons.mp (List.pairwise_append.mp hordered).2.1).1 n hn)

theorem pump_eq {t u : LiveTail ι} (h : t.pump log subject evicted = some u) :
    ∃ cursor m, t.consumer = some cursor ∧ next log subject evicted cursor = some m ∧
      u = ⟨t.sender, some m.seq, t.receiver.map (· ++ [stamp m])⟩ := by
  unfold pump at h
  split at h
  · cases h
  · obtain ⟨m, hm, rfl⟩ := Option.map_eq_some_iff.mp h
    exact ⟨_, m, ‹_›, hm, rfl⟩

end Pump

/-! ## What has been received -/

/-- `taken` and the envelopes that wait are the stamped messages `ms` of the subject, in the
order of their sequences and not beyond the pump. -/
structure FedBy (log : JetStream ι) (subject : Subject ι) (taken : List (BoardEventEnvelope ι))
    (t : LiveTail ι) (ms : List (Message ι)) : Prop where
  delivered : taken ++ t.buffer = ms.map stamp
  ordered : ms.Pairwise fun m n => m.seq < n.seq
  sound : ∀ m ∈ ms, m ∈ log.messages ∧ m.subject = subject
  passed : ∀ c, t.consumer = some c → ∀ m ∈ ms, m.seq ≤ c
  unjoined : t.receiver = none → ms = []
  cursor : ∀ c, t.consumer = some c → c ≤ log.lastSeq

def Fed (log : JetStream ι) (subject : Subject ι) (taken : List (BoardEventEnvelope ι))
    (t : LiveTail ι) : Prop := ∃ ms, FedBy log subject taken t ms

section Fed

variable {log : JetStream ι} {subject : Subject ι} {taken : List (BoardEventEnvelope ι)}
  {t u : LiveTail ι}

theorem fed_new : Fed log subject [] new :=
  ⟨[], rfl, List.Pairwise.nil, by simp, by simp, fun _ => rfl, by simp [new]⟩

/-- The stream grows. -/
theorem Fed.grow {log' : JetStream ι} (h : Fed log subject taken t)
    (hsub : log.messages ⊆ log'.messages) (hlast : log.lastSeq ≤ log'.lastSeq) :
    Fed log' subject taken t := by
  obtain ⟨ms, h⟩ := h
  exact ⟨ms, h.delivered, h.ordered, fun m hm => ⟨hsub (h.sound m hm).1, (h.sound m hm).2⟩,
    h.passed, h.unjoined, fun c hc => (h.cursor c hc).trans hlast⟩

theorem Fed.openConsumer (h : Fed log subject taken t) (hstep : t.openConsumer = some u) :
    Fed log subject taken u := by
  obtain ⟨ms, h⟩ := h
  obtain ⟨hnone, rfl⟩ := openConsumer_eq hstep
  obtain rfl := h.unjoined hnone
  refine ⟨[], ?_, List.Pairwise.nil, by simp, by simp, fun _ => rfl, fun c hc => ?_⟩
  · simpa [buffer, hnone] using h.delivered
  · obtain rfl := Option.some.inj hc
    exact Nat.zero_le _

theorem Fed.join (h : Fed log subject taken t) (hstep : t.join = some u) :
    Fed log subject taken u := by
  obtain ⟨ms, h⟩ := h
  obtain ⟨c, rfl, rfl⟩ := join_eq hstep
  exact ⟨ms, h.delivered, h.ordered, h.sound, h.passed, fun h => (by cases h), h.cursor⟩

theorem Fed.pumpEnds (h : Fed log subject taken t) : Fed log subject taken t.pumpEnds := by
  obtain ⟨ms, h⟩ := h
  exact ⟨ms, h.delivered, h.ordered, h.sound, fun c hc => (by cases hc), h.unjoined,
    fun c hc => (by cases hc)⟩

theorem Fed.abort (h : Fed log subject taken t) : Fed log subject taken t.abort := by
  obtain ⟨ms, h⟩ := h
  exact ⟨ms, h.delivered, h.ordered, h.sound, fun c hc => (by cases hc), h.unjoined,
    fun c hc => (by cases hc)⟩

theorem Fed.take {e : BoardEventEnvelope ι} (h : Fed log subject taken t)
    (hstep : t.take = some (e, u)) : Fed log subject (taken ++ [e]) u := by
  obtain ⟨ms, h⟩ := h
  obtain ⟨hbuf, -, hcons, hrec⟩ := take_eq hstep
  refine ⟨ms, ?_, h.ordered, h.sound, fun c hc => h.passed c (hcons ▸ hc), fun hnone => ?_,
    fun c hc => h.cursor c (hcons ▸ hc)⟩
  · rw [← h.delivered, hbuf]; simp
  · rw [hrec] at hnone; cases hnone

theorem Fed.pump [DecidableEq ι] {evicted : ℕ} (h : Fed log subject taken t)
    (hstep : t.pump log subject evicted = some u) : Fed log subject taken u := by
  obtain ⟨ms, h⟩ := h
  obtain ⟨cursor, m, hcursor, hnext, rfl⟩ := pump_eq hstep
  obtain ⟨hmem, hsub, hlt, -, -⟩ := next_some hnext
  cases hrec : t.receiver with
  | none =>
      obtain rfl := h.unjoined hrec
      refine ⟨[], ?_, List.Pairwise.nil, by simp, by simp, fun _ => rfl, fun c hc => ?_⟩
      · simpa [buffer, hrec] using h.delivered
      · obtain rfl := Option.some.inj hc
        exact log.bound m hmem
  | some waiting =>
      refine ⟨ms ++ [m], ?_, ?_, fun n hn => ?_, fun c hc n hn => ?_, fun hnone => (by cases hnone),
        fun c hc => ?_⟩
      · have hdel := h.delivered
        simp only [buffer, hrec, Option.getD_some] at hdel
        simp [buffer, ← hdel]
      · refine List.pairwise_append.mpr ⟨h.ordered, List.pairwise_singleton _ _, ?_⟩
        intro n hn n' hn'
        rw [List.mem_singleton.mp hn']
        exact (h.passed cursor hcursor n hn).trans_lt hlt
      · rcases List.mem_append.mp hn with hn | hn
        · exact h.sound n hn
        · rw [List.mem_singleton.mp hn]
          exact ⟨hmem, hsub⟩
      · obtain rfl := Option.some.inj hc
        rcases List.mem_append.mp hn with hn | hn
        · exact (h.passed cursor hcursor n hn).trans hlt.le
        · rw [List.mem_singleton.mp hn]
      · obtain rfl := Option.some.inj hc
        exact log.bound m hmem

/-- After a lag the later envelopes still arrive. -/
theorem Fed.skip (h : Fed log subject taken t) (n : ℕ) : Fed log subject taken (t.skip n) := by
  obtain ⟨ms, h⟩ := h
  have hsub : (ms.take taken.length ++ ms.drop (taken.length + n)).Sublist ms := by
    have htail : (ms.drop (taken.length + n)).Sublist (ms.drop taken.length) := by
      rw [← List.drop_drop]
      exact List.drop_sublist _ _
    have hboth := (List.Sublist.refl (ms.take taken.length)).append htail
    rwa [List.take_append_drop] at hboth
  refine ⟨ms.take taken.length ++ ms.drop (taken.length + n), ?_, h.ordered.sublist hsub,
    fun m hm => h.sound m (hsub.subset hm), fun c hc m hm => h.passed c hc m (hsub.subset hm),
    fun hnone => ?_, h.cursor⟩
  · rw [List.map_append, List.map_take, List.map_drop, ← h.delivered, buffer_skip]
    simp
  · have hrec : t.receiver = none := by simpa [LiveTail.skip] using hnone
    simp [h.unjoined hrec]

/-- What the subscriber receives next exceeds all that it has received. -/
theorem Fed.lt_of_take {e : BoardEventEnvelope ι} (h : Fed log subject taken t)
    (hstep : t.take = some (e, u)) : ∀ e' ∈ taken, e'.natsSeq < e.natsSeq := by
  obtain ⟨ms, h⟩ := h
  have hpair : (taken ++ t.buffer).Pairwise fun a b => a.natsSeq < b.natsSeq := by
    rw [h.delivered, List.pairwise_map]
    exact h.ordered
  rw [(take_eq hstep).1] at hpair
  exact fun e' he' => (List.pairwise_append.mp hpair).2.2 e' he' e (by simp)

/-- What was received is the stamp of a message of the subject. -/
theorem Fed.mem_received (h : Fed log subject taken t) {e : BoardEventEnvelope ι}
    (he : e ∈ taken ++ t.buffer) : ∃ m ∈ log.messages, m.subject = subject ∧ stamp m = e := by
  obtain ⟨ms, h⟩ := h
  rw [h.delivered] at he
  obtain ⟨m, hm, rfl⟩ := List.mem_map.mp he
  exact ⟨m, (h.sound m hm).1, (h.sound m hm).2, rfl⟩

theorem Fed.mem_taken (h : Fed log subject taken t) {e : BoardEventEnvelope ι} (he : e ∈ taken) :
    ∃ m ∈ log.messages, m.subject = subject ∧ stamp m = e :=
  h.mem_received (List.mem_append_left _ he)

/-- Without a receiver nothing was received. -/
theorem Fed.taken_eq_nil (h : Fed log subject taken t) (hnone : t.receiver = none) :
    taken = [] := by
  obtain ⟨ms, h⟩ := h
  have hdel := h.delivered
  rw [h.unjoined hnone] at hdel
  exact (List.append_eq_nil_iff.mp hdel).1

theorem Fed.cursor_le (h : Fed log subject taken t) {c : ℕ} (hc : t.consumer = some c) :
    c ≤ log.lastSeq := by
  obtain ⟨ms, h⟩ := h
  exact h.cursor c hc

/-- A message that the pump has not passed has not been received. -/
theorem Fed.not_received (h : Fed log subject taken t) {c : ℕ} (hc : t.consumer = some c)
    {m : Message ι} (hlt : c < m.seq) : stamp m ∉ taken ++ t.buffer := by
  obtain ⟨ms, h⟩ := h
  rw [h.delivered]
  intro hmem
  obtain ⟨n, hn, hstamp⟩ := List.mem_map.mp hmem
  have hseq : n.seq = m.seq := congrArg BoardEventEnvelope.natsSeq hstamp
  have := h.passed c hc n hn
  omega

end Fed

/-! ## What is in reach -/

/-- The message has been received or waits in the receiver, or it is retained and ahead of the
pump. -/
def InReach (evicted : ℕ) (taken : List (BoardEventEnvelope ι)) (t : LiveTail ι) (m : Message ι) :
    Prop :=
  stamp m ∈ taken ++ t.buffer ∨ ∃ c, t.consumer = some c ∧ c < m.seq ∧ evicted < m.seq

section Reach

variable {log : JetStream ι} {subject : Subject ι} {evicted : ℕ}
  {taken : List (BoardEventEnvelope ι)} {t u : LiveTail ι} {m : Message ι}

theorem InReach.take {e : BoardEventEnvelope ι} (h : InReach evicted taken t m)
    (hstep : t.take = some (e, u)) : InReach evicted (taken ++ [e]) u m := by
  obtain ⟨hbuf, -, hcons, -⟩ := take_eq hstep
  rcases h with h | ⟨c, hc, h⟩
  · left
    rw [hbuf] at h
    simpa using h
  · exact .inr ⟨c, hcons.trans hc, h⟩

theorem InReach.pump [DecidableEq ι] (h : InReach evicted taken t m) (hm : m ∈ log.messages)
    (hsub : m.subject = subject) (hjoined : t.receiver.isSome)
    (hstep : t.pump log subject evicted = some u) : InReach evicted taken u m := by
  obtain ⟨cursor, n, hcursor, hnext, rfl⟩ := pump_eq hstep
  obtain ⟨waiting, hrec⟩ := Option.isSome_iff_exists.mp hjoined
  rcases h with h | ⟨c, hc, hlt, hev⟩
  · left
    simp only [buffer, hrec, Option.map_some, Option.getD_some] at h ⊢
    rw [← List.append_assoc]
    exact List.mem_append_left _ h
  · obtain rfl := Option.some.inj (hcursor.symm.trans hc)
    rcases (next_some hnext).2.2.2.2 m hm hsub hlt hev with rfl | hlt'
    · left
      simp [buffer, hrec]
    · exact .inr ⟨_, rfl, hlt', hev⟩

end Reach

/-! ## Nothing in between is missing -/

/-- Every message of the subject above `since`, up to a received one, has been received. -/
def Contiguous (log : JetStream ι) (subject : Subject ι) (since : ℕ)
    (es : List (BoardEventEnvelope ι)) : Prop :=
  ∀ e ∈ es, ∀ m ∈ log.messages, m.subject = subject → since < m.seq → m.seq ≤ e.natsSeq →
    stamp m ∈ es

section Contiguous

variable {log : JetStream ι} {subject : Subject ι} {evicted since : ℕ}
  {taken es : List (BoardEventEnvelope ι)} {t : LiveTail ι}

/-- Messages that are published later come after all that was received. -/
theorem Contiguous.grow {log' : JetStream ι} (h : Contiguous log subject since es)
    (hold : ∀ e ∈ es, ∃ m ∈ log.messages, m.subject = subject ∧ stamp m = e)
    (hnew : ∀ m ∈ log'.messages, m ∈ log.messages ∨ log.lastSeq < m.seq) :
    Contiguous log' subject since es := by
  intro e he m hm hsub hsince hle
  rcases hnew m hm with hm | hlt
  · exact h e he m hm hsub hsince hle
  · obtain ⟨n, hn, -, rfl⟩ := hold e he
    have hbound := log.bound n hn
    rw [stamp_natsSeq] at hle
    omega

/-- While the pump runs and every message is in reach, it has passed over none. -/
theorem Fed.contiguous (h : Fed log subject taken t) {c : ℕ} (hc : t.consumer = some c)
    (hreach : ∀ m ∈ log.messages, m.subject = subject → since < m.seq →
      InReach evicted taken t m) : Contiguous log subject since (taken ++ t.buffer) := by
  obtain ⟨ms, h⟩ := h
  intro e he m hm hsub hsince hle
  rcases hreach m hm hsub hsince with hrec | ⟨c', hc', hlt, -⟩
  · exact hrec
  · obtain rfl := Option.some.inj (hc.symm.trans hc')
    rw [h.delivered] at he
    obtain ⟨n, hn, rfl⟩ := List.mem_map.mp he
    have hpassed := h.passed c hc n hn
    rw [stamp_natsSeq] at hle
    omega

/-- What was taken is a contiguous part of what was received. -/
theorem Contiguous.of_buffer (h : Contiguous log subject since (taken ++ t.buffer))
    (hfed : Fed log subject taken t) : Contiguous log subject since taken := by
  obtain ⟨ms, hfed⟩ := hfed
  have hpair : (taken ++ t.buffer).Pairwise fun a b => a.natsSeq < b.natsSeq := by
    rw [hfed.delivered, List.pairwise_map]
    exact hfed.ordered
  intro e he m hm hsub hsince hle
  rcases List.mem_append.mp (h e (List.mem_append_left _ he) m hm hsub hsince hle) with hm | hm
  · exact hm
  · have hlt := (List.pairwise_append.mp hpair).2.2 e he _ hm
    rw [stamp_natsSeq] at hlt
    omega

end Contiguous

end LiveTail

end Kanban.Realtime
