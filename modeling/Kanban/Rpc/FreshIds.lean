import Kanban.Rpc.Placement

/-!
# New ids

`Id::new()` issues an id only once.  So an id that one call was issued no other call was issued,
whatever is done with it.

## Main definitions

* `DrawnOnce` — the ids of the calls under way were issued, each to one call.
-/

namespace Kanban.Rpc

open Program Kanban.Store Kanban.Auth

section React

variable {ι : Type} [DecidableEq ι]

/-- The ids that were issued stay issued, and a new one was not. -/
theorem issued_of_react {c : Call ι} {m : Move ι} {b : Backend ι} {r : Reply ι c × Backend ι}
    (h : react c m b = some r) :
    (r.2.issued = b.issued ∧ newIds [.called c r.1] = []) ∨
      ∃ id, id ∉ b.issued ∧ r.2.issued = id :: b.issued ∧ newIds [.called c r.1] = [id] := by
  have hcreate : ∀ tenant ns object relation subject,
      (b.create tenant ns object relation subject).issued = b.issued := by
    intro tenant ns object relation subject
    unfold Backend.create
    split <;> rfl
  cases c with
  | tenantClient t => cases m <;> cases h <;> exact .inl ⟨rfl, rfl⟩
  | checkPermission t q => cases m <;> cases h <;> exact .inl ⟨rfl, rfl⟩
  | createRelationTuple t ns o rel s =>
      cases m <;> cases h <;> exact .inl ⟨by first | rfl | exact hcreate _ _ _ _ _, rfl⟩
  | listRelationTuples f after =>
      cases m with
      | page size =>
          simp only [react] at h
          split at h
          · cases h
            exact .inl ⟨rfl, rfl⟩
          · cases h
      | refuse transient =>
          cases h
          exact .inl ⟨rfl, rfl⟩
      | done | lose transient | answer g | resolved s | fresh id => cases h
  | deleteRelationTuple id => cases m <;> cases h <;> exact .inl ⟨rfl, rfl⟩
  | resolveSubject t input =>
      cases m <;> cases h
      exact .inl ⟨rfl, rfl⟩
  | newId =>
      cases m with
      | fresh id =>
          simp only [react] at h
          split at h
          · cases h
          · rename_i hid
            cases h
            exact .inr ⟨id, hid, rfl, rfl⟩
      | done | refuse transient | lose transient | answer g | page n | resolved s => cases h
  | diverge => cases m <;> cases h

end React

section Pool

variable {ι κ ε α : Type} [DecidableEq ι]
  {handler : κ → Prog (Db ι) (Rec ι) (Call ι) (Reply ι) ε α}
  {P P' : Pool κ (Db ι) (Rec ι) (Call ι) (Reply ι) (Backend ι) ε α} {a : Turn κ (Move ι)}

/-- What a step does with the ids: nothing, or the thread is issued one. -/
theorem newIds_of_step {t t' : Thread (Db ι) (Rec ι) (Call ι) (Reply ι) ε α}
    {w w' : World (Db ι) (Backend ι)} {b : Act (Move ι)}
    (h : Thread.step (kanban ι) (t, w) b = some (t', w')) :
    (w'.ext.issued = w.ext.issued ∧ newIds t'.trace = newIds t.trace) ∨
      ∃ id, id ∉ w.ext.issued ∧ w'.ext.issued = id :: w.ext.issued ∧
        newIds t'.trace = id :: newIds t.trace := by
  rcases Thread.call_cases h with ⟨hext, l, htr, hl⟩ | ⟨c, m, r, hr, htr, hext⟩
  · refine .inl ⟨by rw [hext], ?_⟩
    have hnone : newIds l = [] :=
      List.eq_nil_iff_forall_not_mem.mpr fun id hid => hl _ _ (mem_newIds.mp hid)
    rw [htr, newIds_append, hnone, List.nil_append]
  · have hcons : newIds t'.trace = newIds [.called c r.1] ++ newIds t.trace := by
      rw [htr, ← newIds_append, List.singleton_append]
    rcases issued_of_react hr with ⟨hissued, hids⟩ | ⟨id, hid, hissued, hids⟩
    · exact .inl ⟨by rw [hext, hissued], by rw [hcons, hids, List.nil_append]⟩
    · exact .inr ⟨id, hid, by rw [hext, hissued], by rw [hcons, hids, List.singleton_append]⟩

/-- The ids that the calls under way were issued count as issued, and none was issued to two of
them. -/
structure DrawnOnce (P : Pool κ (Db ι) (Rec ι) (Call ι) (Reply ι) (Backend ι) ε α) : Prop where
  issued : ∀ c ∈ P.calls, ∀ id ∈ newIds c.2.trace, id ∈ P.world.ext.issued
  apart : ∀ (i j : ℕ) c d, i ≠ j → P.calls[i]? = some c → P.calls[j]? = some d →
    ∀ id ∈ newIds c.2.trace, id ∉ newIds d.2.trace

omit [DecidableEq ι] in
theorem DrawnOnce.of_nil (h : P.calls = []) : DrawnOnce P where
  issued c hc := by
    rw [h] at hc
    cases hc
  apart i j c d _ hc := by
    rw [h] at hc
    cases hc

theorem DrawnOnce.step (h : DrawnOnce P) (hs : P.step (kanban ι) handler a = some P') :
    DrawnOnce P' := by
  rcases Pool.step_cases hs with ⟨q, rfl, rfl⟩ | ⟨i, b, q, t, t', w', rfl, hi, hst, rfl⟩ |
    ⟨i, c, rfl, -, -, rfl⟩
  · -- a call that arrives has no ids yet
    have hnew : ∀ {k : ℕ} {c} {id : ι},
        (P.calls ++ [(q, Thread.start (handler q))])[k]? = some c → id ∈ newIds c.2.trace →
        P.calls[k]? = some c := by
      intro k c id hc hid
      rw [List.getElem?_append] at hc
      split at hc
      · exact hc
      · rw [List.mem_singleton.mp (List.mem_of_getElem? hc)] at hid
        cases hid
    refine ⟨fun c hc id hid => ?_, fun j k c d hjk hc hd id hid hid' => ?_⟩
    · obtain ⟨k, hk⟩ := List.getElem?_of_mem hc
      exact h.issued c (List.mem_of_getElem? (hnew hk hid)) id hid
    · exact h.apart j k c d hjk (hnew hc hid) (hnew hd hid') id hid hid'
  · have hmem := List.mem_of_getElem? hi
    obtain ⟨hlt, -⟩ := List.getElem?_eq_some_iff.mp hi
    have hget : ∀ {k : ℕ} {d}, (P.calls.set i (q, t'))[k]? = some d →
        k = i ∧ d = (q, t') ∨ k ≠ i ∧ P.calls[k]? = some d := by
      intro k d hd
      by_cases hik : i = k
      · subst hik
        rw [List.getElem?_set_self hlt] at hd
        exact .inl ⟨rfl, (Option.some.inj hd).symm⟩
      · rw [List.getElem?_set_ne hik] at hd
        exact .inr ⟨Ne.symm hik, hd⟩
    -- the ids of the thread are its old ones, or one that nobody has
    have hids : ∀ id ∈ newIds t'.trace, id ∈ w'.ext.issued ∧
        (id ∈ newIds t.trace ∨ id ∉ P.world.ext.issued) := by
      intro id hid
      rcases newIds_of_step hst with ⟨hissued, htr⟩ | ⟨id', hfresh, hissued, htr⟩
      · rw [htr] at hid
        exact ⟨hissued ▸ h.issued _ hmem id hid, .inl hid⟩
      · rw [htr] at hid
        rw [hissued]
        rcases List.mem_cons.mp hid with rfl | hid
        · exact ⟨List.mem_cons_self, .inr hfresh⟩
        · exact ⟨List.mem_cons_of_mem _ (h.issued _ hmem id hid), .inl hid⟩
    have hgrows : ∀ id ∈ P.world.ext.issued, id ∈ w'.ext.issued := by
      intro id hid
      rcases newIds_of_step hst with ⟨hissued, -⟩ | ⟨id', -, hissued, -⟩
      · exact hissued ▸ hid
      · exact hissued ▸ List.mem_cons_of_mem _ hid
    have hother : ∀ {k : ℕ} {d}, k ≠ i → P.calls[k]? = some d → ∀ id ∈ newIds t'.trace,
        id ∉ newIds d.2.trace := by
      intro k d hk hd id hid hid'
      rcases (hids id hid).2 with hold | hfresh
      · exact h.apart i k _ d hk.symm hi hd id hold hid'
      · exact hfresh (h.issued d (List.mem_of_getElem? hd) id hid')
    refine ⟨fun c hc id hid => ?_, fun j k c d hjk hc hd id hid hid' => ?_⟩
    · rcases Pool.mem_set hc with rfl | hc
      · exact (hids id hid).1
      · exact hgrows id (h.issued c hc id hid)
    · rcases hget hc with ⟨rfl, rfl⟩ | ⟨hj, hc⟩
      · rcases hget hd with ⟨rfl, -⟩ | ⟨hk, hd⟩
        · exact hjk rfl
        · exact hother hk hd id hid hid'
      · rcases hget hd with ⟨-, rfl⟩ | ⟨-, hd⟩
        · exact hother hj hc id hid' hid
        · exact h.apart j k c d hjk hc hd id hid hid'
  · refine ⟨fun d hd => h.issued d (List.mem_of_mem_eraseIdx hd), fun j k d e hjk hd he => ?_⟩
    rw [List.getElem?_eraseIdx, ← apply_ite fun k => P.calls[k]?] at hd he
    refine h.apart _ _ d e ?_ hd he
    split <;> split <;> omega

end Pool

end Kanban.Rpc
