import Kanban.Lib.Discipline
import Kanban.Rpc.CardService

/-!
# The references of cards

A card's reference is the prefix of its project and a number.  `allocate_card_ref` draws the number
from the counter of the project, in the transaction that creates the card or brings it into the
project, and under an advisory lock that is held until the transaction ends.

## Main definitions

* `refOf`, `drawn` — the reference that a counter row gives out, and how many were given out.
* `Draw`, `refDiscipline` — how far a transaction is with its reference, and what it may write.
* `SameCounter` — two transactions hold the counter of one project.
* `refLaw` — the numbers of a project go up by one, and every reference is one card's.
-/

namespace Kanban.Rpc

open Program Kanban.Store Kanban.Auth
open Kanban.Services (AuthContext ConnectError IdCodec)

variable {ι α β : Type} [DecidableEq ι]

/-! ## References -/

/-- The reference that a counter row gives out. -/
def refOf (r : RefCounterRow ι) : String := r.refPrefix ++ "-" ++ padSeq (r.nextSeq - 1)

section Text

theorem dash_notMem_toDigits {n : ℕ} : '-' ∉ Nat.toDigits 10 n := fun h => by
  simpa using Nat.isDigit_of_mem_toDigits (by decide) (by decide) h

/-- A number that is not negative is written with digits. -/
theorem toList_padSeq {k : ℤ} (hk : 0 ≤ k) : ∃ n, (padSeq k).toList =
    List.replicate n '0' ++ Nat.toDigits 10 k.natAbs := by
  refine ⟨3 - "".length - (Nat.toDigits 10 k.natAbs).length, ?_⟩
  unfold padSeq
  rw [if_neg (by omega)]
  simp

theorem dash_notMem_padSeq {k : ℤ} (hk : 0 ≤ k) : '-' ∉ (padSeq k).toList := by
  obtain ⟨n, hn⟩ := toList_padSeq hk
  rw [hn, List.mem_append]
  rintro (h | h)
  · cases List.eq_of_mem_replicate h
  · exact dash_notMem_toDigits h

/-- The number can be read back. -/
theorem padSeq_injective {k l : ℤ} (hk : 0 ≤ k) (hl : 0 ≤ l)
    (h : (padSeq k).toList = (padSeq l).toList) : k = l := by
  obtain ⟨n, hn⟩ := toList_padSeq hk
  obtain ⟨m, hm⟩ := toList_padSeq hl
  have hread : ∀ (n m : ℕ),
      Nat.ofDigitChars 10 (List.replicate n '0' ++ Nat.toDigits 10 m) 0 = m := by
    intro n m
    rw [Nat.ofDigitChars_append, Nat.ofDigitChars_replicate_zero, Nat.mul_zero,
      Nat.ofDigitChars_ten_toDigits]
  have habs : k.natAbs = l.natAbs := by rw [← hread n k.natAbs, ← hn, h, hm, hread]
  omega

/-- What stands after the last dash. -/
theorem append_dash_injective {a a' b b' : List Char} (hb : '-' ∉ b) (hb' : '-' ∉ b')
    (h : a ++ '-' :: b = a' ++ '-' :: b') : b = b' := by
  have hlast : ∀ {a b : List Char}, '-' ∉ b →
      ((a ++ '-' :: b).reverse.takeWhile (· ≠ '-')).reverse = b := by
    intro a b hb
    have hall : ∀ c ∈ b.reverse, decide (c ≠ '-') = true := fun c hc =>
      decide_eq_true fun heq => hb (heq ▸ List.mem_reverse.mp hc)
    rw [List.reverse_append, List.reverse_cons, List.append_assoc,
      List.takeWhile_append_of_pos hall]
    simp
  rw [← hlast hb, h, hlast hb']

/-- **References with different numbers are different**, whatever their prefixes are. -/
theorem ref_injective {a a' : String} {k l : ℤ} (hk : 0 ≤ k) (hl : 0 ≤ l)
    (h : a ++ "-" ++ padSeq k = a' ++ "-" ++ padSeq l) : k = l := by
  have hlist := congrArg String.toList h
  simp only [String.toList_append] at hlist
  have hdash : "-".toList = ['-'] := rfl
  rw [hdash, List.append_assoc, List.append_assoc] at hlist
  exact padSeq_injective hk hl
    (append_dash_injective (dash_notMem_padSeq hk) (dash_notMem_padSeq hl) hlist)

end Text

/-! ## Counters -/

/-- How many references of the project were given out. -/
def drawn (db : Db ι) (projectId : ι) : ℤ :=
  (db.projectRefCounter.find? fun r => projectId = r.projectId).elim 0 fun r => r.nextSeq - 1

/-- The counter rows that the writes put. -/
def drawsOf (ws : List (Write (Rec ι))) : List (RefCounterRow ι) :=
  ws.filterMap fun
    | .put (.refCounter r) => some r
    | _ => none

/-- The counter rows of one project. -/
def drawsFor (projectId : ι) (ws : List (Write (Rec ι))) : List (RefCounterRow ι) :=
  (drawsOf ws).filter fun r => projectId = r.projectId

/-- Both write the counter of one project; the lock of the counter keeps two such transactions
apart. -/
def SameCounter (ws ws' : List (Write (Rec ι))) : Prop :=
  ∃ r ∈ drawsOf ws, ∃ r' ∈ drawsOf ws', r.projectId = r'.projectId

instance : DecidableRel (SameCounter (ι := ι)) := fun ws ws' =>
  inferInstanceAs (Decidable (∃ r ∈ drawsOf ws, ∃ r' ∈ drawsOf ws', r.projectId = r'.projectId))

/-- How far a transaction is with its reference: the counter row that it has written, and the card
that it has given the reference to. -/
abbrev Draw (ι : Type) := Option (RefCounterRow ι × Option ι)

/-- The write is not about a counter, and a card that it puts was there before, in its project and
with its reference. -/
def KeepsRef (db : Db ι) : Write (Rec ι) → Prop
  | .put (.card c') => ∃ c ∈ db.cards, c.id = c'.id ∧ c.projectId = c'.projectId ∧ c.ref = c'.ref
  | .put (.refCounter _) => False
  | .del (.refCounter _) => False
  | _ => True

/-- A transaction draws the next number of a project, and gives the reference to one card. -/
def refDiscipline (ι : Type) [DecidableEq ι] :
    Discipline (Db ι) (Rec ι) (Call ι) (Reply ι) (Draw ι) where
  first := none
  hear g _ _ := g
  closed _ := True
  auto db ws := ∀ a ∈ ws, KeepsRef db a
  move g db ws g' :=
    (g' = g ∧ ∀ a ∈ ws, KeepsRef db a) ∨
    (∃ r, g = none ∧ g' = some (r, none) ∧ ws = [.put (.refCounter r)] ∧
      r.nextSeq = drawn db r.projectId + 2) ∨
    ∃ r x, g = some (r, none) ∧ g' = some (r, some x) ∧ ∀ a ∈ ws, ∃ c, a = .put (.card c) ∧
      c.id = x ∧ c.projectId = r.projectId ∧ c.ref = refOf r

section Counters

variable {db : Db ι} {ws ws' : List (Write (Rec ι))} {a : Write (Rec ι)} {p : ι}

omit [DecidableEq ι] in
theorem drawsOf_append : drawsOf (ws ++ ws') = drawsOf ws ++ drawsOf ws' := List.filterMap_append

theorem drawsFor_append : drawsFor p (ws ++ ws') = drawsFor p ws ++ drawsFor p ws' := by
  rw [drawsFor, drawsOf_append, List.filter_append]
  rfl

omit [DecidableEq ι] in
theorem drawsOf_of_keeps (h : ∀ a ∈ ws, KeepsRef db a) : drawsOf ws = [] := by
  refine List.filterMap_eq_nil_iff.mpr fun a ha => ?_
  have hkeep := h a ha
  cases a with
  | put r => cases r <;> first | rfl | exact hkeep.elim
  | del r => rfl

theorem drawsFor_of_keeps (h : ∀ a ∈ ws, KeepsRef db a) : drawsFor p ws = [] := by
  rw [drawsFor, drawsOf_of_keeps h]
  rfl

omit [DecidableEq ι] in
/-- No write of a counter is lost to a deletion. -/
theorem not_del_of_keeps (h : ∀ a ∈ ws, KeepsRef db a) (r : RefCounterRow ι) :
    .del (.refCounter r) ∉ ws := fun hr => h _ hr

/-- What the statement of `allocate_card_ref` does: nothing, if there is no such project, or it puts
the next row of the counter. -/
theorem nextCardRef_cases {tenantId : String} {e : Effect (Rec ι) (List (String × ℤ))}
    (he : nextCardRef tenantId p db = some e) : e.answer = [] ∧ e.writes = [] ∨
      ∃ r, r.projectId = p ∧ e.answer = [(r.refPrefix, r.nextSeq - 1)] ∧
        e.writes = [.put (.refCounter r)] ∧ r.nextSeq = drawn db r.projectId + 2 := by
  unfold nextCardRef at he
  split at he
  · cases he
    exact .inl ⟨rfl, rfl⟩
  · rename_i project _
    obtain ⟨e', he', rfl⟩ := Option.map_eq_some_iff.mp he
    refine .inr ?_
    unfold Table.upsert at he'
    split at he'
    · rename_i r hfound
      have hsame : p = r.projectId := by simpa using List.find?_some hfound
      have hdrawn : drawn db r.projectId = r.nextSeq - 1 := by
        have hfind : db.projectRefCounter.find? (fun r' => p = r'.projectId) = some r := hfound
        rw [← hsame, drawn, hfind]
        rfl
      cases he'
      refine ⟨{ r with nextSeq := r.nextSeq + 1, refPrefix := project.refPrefix }, hsame.symm, rfl,
        rfl, ?_⟩
      change r.nextSeq + 1 = drawn db r.projectId + 2
      omega
    · rename_i hnone
      have hdrawn : drawn db p = 0 := by
        have hfind : db.projectRefCounter.find? (fun r' => p = r'.projectId) = none := hnone
        rw [drawn, hfind]
        rfl
      cases he'
      refine ⟨⟨p, tenantId, project.refPrefix, 2⟩, rfl, rfl, rfl, ?_⟩
      change (2 : ℤ) = drawn db p + 2
      omega

theorem drawn_apply (hdel : ∀ r, a ≠ .del (.refCounter r)) : drawn (db.apply a) p =
    ((drawsFor p [a]).head?.map fun r => r.nextSeq - 1).getD (drawn db p) := by
  by_cases ha : ∃ r, a = .put (.refCounter r)
  · obtain ⟨r, rfl⟩ := ha
    have hrows : (db.apply (.put (.refCounter r))).projectRefCounter =
        Table.put Db.refCounterT.same r db.projectRefCounter := rfl
    by_cases hp : p = r.projectId
    · subst hp
      have hfind : (Table.put Db.refCounterT.same r db.projectRefCounter).find?
          (fun r' => r.projectId = r'.projectId) = some r :=
        Table.find?_put_self (fun _ => rfl) (decide_eq_true rfl)
      rw [drawn, hrows, hfind]
      simp [drawsFor, drawsOf]
    · have hfind : (Table.put Db.refCounterT.same r db.projectRefCounter).find?
          (fun r' => p = r'.projectId) = db.projectRefCounter.find? fun r' => p = r'.projectId :=
        Table.find?_put_of_ne
          (fun r' hr' => decide_eq_false fun h => hp (h.trans (of_decide_eq_true hr').symm))
          (decide_eq_false hp)
      rw [drawn, hrows, hfind]
      simp [drawsFor, drawsOf, hp, drawn]
  · have hnil : drawsFor p [a] = [] := by
      have hnone : drawsOf [a] = [] := by
        refine List.filterMap_eq_nil_iff.mpr fun b hb => ?_
        rw [List.mem_singleton.mp hb]
        cases a with
        | put r => cases r <;> first | rfl | exact absurd ⟨_, rfl⟩ ha
        | del r => rfl
      rw [drawsFor, hnone]
      rfl
    have hrows : (db.apply a).projectRefCounter = db.projectRefCounter := by
      cases a with
      | put r => cases r <;> first | rfl | exact absurd ⟨_, rfl⟩ ha
      | del r => cases r <;> first | rfl | exact absurd rfl (hdel _)
    rw [hnil, drawn, hrows]
    rfl

/-- The last counter row that was put says how many references were given out. -/
theorem drawn_applyAll (hdel : ∀ r, .del (.refCounter r) ∉ ws) :
    drawn ((kanban ι).applyAll db ws) p =
      ((drawsFor p ws).getLast?.map fun r => r.nextSeq - 1).getD (drawn db p) := by
  induction ws generalizing db with
  | nil => rfl
  | cons a ws ih =>
      refine (ih fun r hr => hdel r (List.mem_cons_of_mem _ hr)).trans ?_
      have hone : drawn (db.apply a) p =
          ((drawsFor p [a]).head?.map fun r => r.nextSeq - 1).getD (drawn db p) :=
        drawn_apply fun r hr => hdel r (hr ▸ List.mem_cons_self)
      have hsplit : drawsFor p ([a] ++ ws) = drawsFor p [a] ++ drawsFor p ws := drawsFor_append
      rw [List.singleton_append] at hsplit
      have hle : (drawsFor p [a]).length ≤ 1 :=
        (List.length_filter_le _ _).trans (List.length_filterMap_le _ _)
      rw [hsplit]
      cases hlast : drawsFor p ws with
      | cons r rest =>
          rw [List.getLast?_append_of_ne_nil _ (List.cons_ne_nil _ _), List.getLast?_cons]
          rfl
      | nil =>
          cases hfirst : drawsFor p [a] with
          | nil => simpa [hfirst] using hone
          | cons r rest =>
              rw [hfirst] at hle
              obtain rfl : rest = [] := List.eq_nil_of_length_eq_zero (by simpa using hle)
              simpa [hfirst] using hone

end Counters

/-! ## The law of references -/

section Law

variable {κ : Type} {p : ι} {db : Db ι} {log : List (CommitOf κ (Rec ι) (Call ι) (Reply ι))}
  {c : CommitOf κ (Rec ι) (Call ι) (Reply ι)} {ws ws' : List (Write (Rec ι))} {g g' : Draw ι}

omit [DecidableEq ι] in
/-- A commit has put the card in the project under the reference. -/
def Told (p : ι) (log : List (CommitOf κ (Rec ι) (Call ι) (Reply ι))) (x : ι) (ref : String) :
    Prop :=
  ∃ c ∈ log, ∃ row, .put (.card row) ∈ c.2.2 ∧ row.projectId = p ∧ row.id = x ∧ row.ref = ref

/-- The numbers that the commits of a log have drawn in a project, one after the other. -/
def numbersOf (p : ι) (log : List (CommitOf κ (Rec ι) (Call ι) (Reply ι))) : List ℤ :=
  log.flatMap fun c => (drawsFor p c.2.2).map fun r => r.nextSeq - 1

/-- The numbers of the project go up by one, and every reference that was put in it is one
card's. -/
structure RefsKept (p : ι) (db : Db ι) (log : List (CommitOf κ (Rec ι) (Call ι) (Reply ι))) :
    Prop where
  numbers : ∃ n : ℕ, drawn db p = n ∧ numbersOf p log = (List.range n).map fun i : ℕ => (i : ℤ) + 1
  cards : ∀ row ∈ db.cards, row.projectId = p → Told p log row.id row.ref
  told : ∀ x ref, Told p log x ref →
    ∃ a k, 1 ≤ k ∧ k ≤ drawn db p ∧ ref = a ++ "-" ++ padSeq k
  single : ∀ x y ref, Told p log x ref → Told p log y ref → x = y

/-- An open transaction holds at most the next number of the project, and the cards that it puts
there were told or carry it. -/
structure DrawKept (p : ι) (db : Db ι) (log : List (CommitOf κ (Rec ι) (Call ι) (Reply ι)))
    (ws : List (Write (Rec ι))) (g : Draw ι) : Prop where
  kept : ∀ r, .del (.refCounter r) ∉ ws
  draws : drawsFor p ws = (g.toList.map Prod.fst).filter fun r => p = r.projectId
  next : ∀ r o, g = some (r, o) → p = r.projectId → r.nextSeq = drawn db p + 2
  cards : ∀ row, .put (.card row) ∈ ws → row.projectId = p → Told p log row.id row.ref ∨
    ∃ r, g = some (r, some row.id) ∧ p = r.projectId ∧ row.ref = refOf r

omit [DecidableEq ι] in
theorem Told.append {x : ι} {ref : String} (h : Told p log x ref) : Told p (log ++ [c]) x ref := by
  obtain ⟨c', hc', hrow⟩ := h
  exact ⟨c', List.mem_append_left _ hc', hrow⟩

theorem drawKept_first : DrawKept p db log ([] : List (Write (Rec ι))) none where
  kept := by simp
  draws := rfl
  next := by simp
  cards := by simp

/-- **One statement of a transaction.** -/
theorem DrawKept.move {e : List (Write (Rec ι))} (hI : RefsKept p db log)
    (h : DrawKept p db log ws g)
    (hmove : (refDiscipline ι).move g ((kanban ι).applyAll db ws) e g') :
    DrawKept p db log (ws ++ e) g' := by
  rcases hmove with ⟨rfl, hkeep⟩ | ⟨r, rfl, rfl, rfl, hseq⟩ | ⟨r, x, rfl, rfl, hgive⟩
  · refine ⟨fun r hr => ?_, ?_, h.next, fun row hrow hp => ?_⟩
    · exact (List.mem_append.mp hr).elim (h.kept r) (not_del_of_keeps hkeep r)
    · rw [drawsFor_append, drawsFor_of_keeps hkeep, List.append_nil, h.draws]
    · rcases List.mem_append.mp hrow with hrow | hrow
      · exact h.cards row hrow hp
      · -- the card was in what the statement saw: in the store, or among the writes
        obtain ⟨c₀, hc₀, hid, hproject, href⟩ := hkeep _ hrow
        rw [← hid, ← href]
        rcases stored_cards.mem_applyAll hc₀ with hput | ⟨hold, -⟩
        · exact h.cards c₀ hput (hproject.trans hp)
        · exact .inl (hI.cards c₀ hold (hproject.trans hp))
  · have hnone : drawsFor p ws = [] := h.draws
    refine ⟨fun r' hr' => ?_, ?_, fun r' o hr' hp => ?_, fun row hrow hp => ?_⟩
    · rcases List.mem_append.mp hr' with hr' | hr'
      · exact h.kept r' hr'
      · cases List.mem_singleton.mp hr'
    · rw [drawsFor_append, hnone]
      rfl
    · cases hr'
      subst hp
      rw [hseq, drawn_applyAll h.kept, hnone]
      rfl
    · rcases List.mem_append.mp hrow with hrow | hrow
      · rcases h.cards row hrow hp with htold | ⟨r', hr', -⟩
        · exact .inl htold
        · cases hr'
      · cases List.mem_singleton.mp hrow
  · have hdraws : drawsOf e = [] := List.filterMap_eq_nil_iff.mpr fun a ha => by
      obtain ⟨row, rfl, -⟩ := hgive a ha
      rfl
    refine ⟨fun r' hr' => ?_, ?_, fun r' o hr' hp => ?_, fun row hrow hp => ?_⟩
    · rcases List.mem_append.mp hr' with hr' | hr'
      · exact h.kept r' hr'
      · obtain ⟨row, hrow, -⟩ := hgive _ hr'
        cases hrow
    · have hnil : drawsFor p e = [] := by rw [drawsFor, hdraws]; rfl
      rw [drawsFor_append, hnil, List.append_nil, h.draws]
      rfl
    · cases hr'
      exact h.next r none rfl hp
    · rcases List.mem_append.mp hrow with hrow | hrow
      · rcases h.cards row hrow hp with htold | ⟨r', hr', -⟩
        · exact .inl htold
        · cases hr'
      · obtain ⟨row', heq, hid, hproject, href⟩ := hgive _ hrow
        cases heq
        exact .inr ⟨r, by rw [hid], hp.symm.trans hproject, href⟩

/-- What the transaction adds to the count: its number is the next one. -/
theorem DrawKept.counts (h : DrawKept p db log ws g) :
    drawsFor p ws = [] ∧ drawn ((kanban ι).applyAll db ws) p = drawn db p ∨
    ∃ r o, g = some (r, o) ∧ p = r.projectId ∧ drawsFor p ws = [r] ∧
      r.nextSeq - 1 = drawn db p + 1 ∧
      drawn ((kanban ι).applyAll db ws) p = drawn db p + 1 := by
  have hnone : drawsFor p ws = [] → drawn ((kanban ι).applyAll db ws) p = drawn db p := by
    intro hnil
    rw [drawn_applyAll h.kept, hnil]
    rfl
  cases hg : g with
  | none =>
      have hnil : drawsFor p ws = [] := by rw [h.draws, hg]; rfl
      exact .inl ⟨hnil, hnone hnil⟩
  | some d =>
      obtain ⟨r, o⟩ := d
      by_cases hp : p = r.projectId
      · have hone : drawsFor p ws = [r] := by
          rw [h.draws, hg]
          simp [hp]
        have hseq := h.next r o hg hp
        refine .inr ⟨r, o, rfl, hp, hone, by omega, ?_⟩
        rw [drawn_applyAll h.kept, hone]
        change r.nextSeq - 1 = _
        omega
      · have hnil : drawsFor p ws = [] := by
          rw [h.draws, hg]
          simp [hp]
        exact .inl ⟨hnil, hnone hnil⟩

/-- What a log tells after a commit: what it told, or the new reference of the transaction. -/
theorem DrawKept.told {x : ι} {ref : String} (h : DrawKept p db log c.2.2 g)
    (ht : Told p (log ++ [c]) x ref) :
    Told p log x ref ∨ ∃ r, g = some (r, some x) ∧ p = r.projectId ∧ ref = refOf r := by
  obtain ⟨c', hc', row, hrow, hp, rfl, rfl⟩ := ht
  rcases List.mem_append.mp hc' with hc' | hc'
  · exact .inl ⟨c', hc', row, hrow, hp, rfl, rfl⟩
  · rw [List.mem_singleton.mp hc'] at hrow
    exact h.cards row hrow hp

/-- **The commit of a transaction.** -/
theorem DrawKept.commit (hI : RefsKept p db log) (h : DrawKept p db log c.2.2 g) :
    RefsKept p ((kanban ι).applyAll db c.2.2) (log ++ [c]) := by
  obtain ⟨n, hn, hnumbers⟩ := hI.numbers
  have hsplit : numbersOf p (log ++ [c]) =
      numbersOf p log ++ (drawsFor p c.2.2).map fun r => r.nextSeq - 1 := by
    rw [numbersOf, List.flatMap_append, List.flatMap_singleton]
    rfl
  have hgrows : drawn db p ≤ drawn ((kanban ι).applyAll db c.2.2) p := by
    rcases h.counts with ⟨-, hsame⟩ | ⟨r, o, -, -, -, -, hsucc⟩ <;> omega
  -- a reference that is new carries the next number
  have hnew : ∀ {x ref} {r : RefCounterRow ι}, g = some (r, some x) → p = r.projectId →
      ref = refOf r → ref = r.refPrefix ++ "-" ++ padSeq (drawn db p + 1) ∧
        drawn ((kanban ι).applyAll db c.2.2) p = drawn db p + 1 := by
    rintro x ref r hg hp rfl
    have hseq := h.next r _ hg hp
    have hnumber : r.nextSeq - 1 = drawn db p + 1 := by omega
    refine ⟨by rw [refOf, hnumber], ?_⟩
    rcases h.counts with ⟨hnil, -⟩ | ⟨r', o, -, -, -, -, hsucc⟩
    · rw [h.draws, hg] at hnil
      simp [hp] at hnil
    · exact hsucc
  refine ⟨?_, fun row hrow hp => ?_, fun x ref ht => ?_, fun x y ref hx hy => ?_⟩
  · rcases h.counts with ⟨hnil, hsame⟩ | ⟨r, o, -, -, hone, hnumber, hsucc⟩
    · refine ⟨n, hsame.trans hn, ?_⟩
      rw [hsplit, hnil, hnumbers]
      exact List.append_nil _
    · refine ⟨n + 1, by rw [hsucc, hn]; rfl, ?_⟩
      rw [hsplit, hone, hnumbers, List.range_succ, List.map_append, List.map_singleton,
        List.map_singleton, hnumber, hn]
  · rcases stored_cards.mem_applyAll hrow with hput | ⟨hold, -⟩
    · exact ⟨c, List.mem_append_right _ (List.mem_singleton_self c), row, hput, hp, rfl, rfl⟩
    · exact (hI.cards row hold hp).append
  · rcases h.told ht with hold | ⟨r, hg, hp, href⟩
    · obtain ⟨a, k, hk, hle, heq⟩ := hI.told x ref hold
      exact ⟨a, k, hk, hle.trans hgrows, heq⟩
    · obtain ⟨heq, hsucc⟩ := hnew hg hp href
      exact ⟨r.refPrefix, _, by omega, hsucc.ge, heq⟩
  · have hapart : ∀ {x ref} {r : RefCounterRow ι} {y}, Told p log x ref → g = some (r, some y) →
        p = r.projectId → ref ≠ refOf r := by
      intro x ref r y hold hg hp heq
      obtain ⟨a, k, hk, hle, href⟩ := hI.told x ref hold
      have hk' := ref_injective (by omega) (by omega) (href.symm.trans (hnew hg hp heq).1)
      omega
    rcases h.told hx with hx | ⟨r, hg, hp, href⟩ <;>
      rcases h.told hy with hy | ⟨r', hg', hp', href'⟩
    · exact hI.single x y ref hx hy
    · exact absurd href' (hapart hx hg' hp')
    · exact absurd href (hapart hy hg hp)
    · cases hg.symm.trans hg'
      rfl

/-- The writes of a transaction that does not clash with the commit. -/
theorem DrawKept.beside (h : DrawKept p db log c.2.2 g) (h' : DrawKept p db log ws' g')
    (hclash : ¬ SameCounter c.2.2 ws') :
    DrawKept p ((kanban ι).applyAll db c.2.2) (log ++ [c]) ws' g' where
  kept := h'.kept
  draws := h'.draws
  next r o hg hp := by
    rcases h.counts with ⟨-, hsame⟩ | ⟨r₁, o₁, -, hp₁, hone, -, -⟩
    · rw [hsame]
      exact h'.next r o hg hp
    · have hmine : r₁ ∈ drawsOf c.2.2 := by
        have hmem : r₁ ∈ drawsFor p c.2.2 := hone ▸ List.mem_singleton_self r₁
        exact (List.mem_filter.mp hmem).1
      have hhis : r ∈ drawsOf ws' := by
        have hmem : r ∈ drawsFor p ws' := by
          rw [h'.draws, hg]
          simp [hp]
        exact (List.mem_filter.mp hmem).1
      exact absurd ⟨r₁, hmine, r, hhis, hp₁.symm.trans hp⟩ hclash
  cards row hrow hp := (h'.cards row hrow hp).imp Told.append id

/-- The law of the references of a project. -/
def refLaw (p : ι) (κ : Type) :
    Discipline.Law (kanban ι) (refDiscipline ι) (fun h h' => SameCounter h.2 h'.2) κ where
  Inv w := RefsKept p w.store
  Local w log h := DrawKept p w.store log h.2
  first _ _ _ _ := drawKept_first
  move _ _ _ _ _ _ _ _ hI h hmove := h.move hI hmove
  hear _ _ _ _ _ hI _ := ⟨hI, fun _ _ _ h => ⟨h, h⟩⟩
  auto c w log hI hauto := by
    have h : DrawKept p w.store log c.2.2 none :=
      drawKept_first.move (e := c.2.2) hI (.inl ⟨rfl, hauto⟩)
    exact ⟨h.commit hI, fun _ g h' => h.beside h'⟩
  commit _ _ _ _ hI h _ := ⟨h.commit hI, fun _ _ h' => h.beside h'⟩

end Law

end Kanban.Rpc
