import Mathlib.Data.List.Basic

/-!
# Updates with a field mask

A sparse update changes some of the fields of a row.  A mask names the fields that the update is
about; the program decides for each field, from the request, whether it sets it, and what it takes
for the value of the request.  The law of a mask is that the named fields take the value of the
request and everything else stays.  It holds exactly if each field is set when it is named, and with
that value, unless the value is there already.

## Main definitions

* `Field` — a field of a row that a request can set.
* `Field.Sets`, `Updates` — what a program does to a field, and to a row.
* `Lawful` — the law of the mask.
* `Fits`, `Fitting` — the fields that are set are those that are named.
-/

namespace FieldMask

variable {ρ π : Type}

/-- A field: its path in a mask, how a row holds it, the value of a request, what the program takes
for it, and the requests that set the field. -/
structure Field (ρ π : Type) where
  path : String
  Value : Type
  stored : ρ → Value
  patched : π → Value
  taken : π → Value
  sets : π → Prop

variable {live : Prop} {fields : List (Field ρ π)} {rest : ρ → ρ} {mask : List String} {req : π}
  {old new : ρ}

/-- What the program does to a field: if the request is `live` and sets it, the field is what the
program takes for the value of the request, and else it stays. -/
structure Field.Sets (live : Prop) (req : π) (old new : ρ) (f : Field ρ π) : Prop where
  set : live → f.sets req → f.stored new = f.taken req
  unset : ¬ (live ∧ f.sets req) → f.stored new = f.stored old

/-- What the program does to a row; `rest` is a row without its fields. -/
structure Updates (live : Prop) (fields : List (Field ρ π)) (rest : ρ → ρ) (req : π) (old new : ρ) :
    Prop where
  fields : ∀ f ∈ fields, f.Sets live req old new
  rest : rest new = rest old

/-- The law of the mask. -/
structure Lawful (fields : List (Field ρ π)) (rest : ρ → ρ) (mask : List String) (req : π)
    (old new : ρ) : Prop where
  named : ∀ f ∈ fields, f.path ∈ mask → f.stored new = f.patched req
  unnamed : ∀ f ∈ fields, f.path ∉ mask → f.stored new = f.stored old
  rest : rest new = rest old

/-- A field that is set is named and takes the value of the request, or is as it was; a field that is
not set is not named, or has that value. -/
def Field.Fits (live : Prop) (mask : List String) (req : π) (old : ρ) (f : Field ρ π) : Prop :=
  (live ∧ f.sets req → f.taken req = if f.path ∈ mask then f.patched req else f.stored old) ∧
    (¬ (live ∧ f.sets req) → f.path ∈ mask → f.stored old = f.patched req)

/-- Every field fits the mask. -/
def Fitting (live : Prop) (fields : List (Field ρ π)) (mask : List String) (req : π) (old : ρ) :
    Prop :=
  ∀ f ∈ fields, f.Fits live mask req old

theorem Field.sets_of_ite {f : Field ρ π} {p : Prop} [Decidable p] (hp : f.sets req ↔ p)
    (h : f.stored new = if p then f.taken req else f.stored old) : f.Sets True req old new where
  set := fun _ hset => h.trans (if_pos (hp.mp hset))
  unset := fun hset => h.trans (if_neg fun hp' => hset ⟨trivial, hp.mpr hp'⟩)

/-- A request that is carried out. -/
theorem Updates.of_live (hlive : live) (h : Updates True fields rest req old new) :
    Updates live fields rest req old new where
  fields := fun f hf => ⟨fun _ => (h.fields f hf).set trivial, fun hset =>
    (h.fields f hf).unset fun hset' => hset ⟨hlive, hset'.2⟩⟩
  rest := h.rest

/-- A request that is not carried out changes nothing. -/
theorem Updates.refl (h : ¬ live) : Updates live fields rest req old old where
  fields := fun _ _ => ⟨fun hlive => absurd hlive h, fun _ => rfl⟩
  rest := rfl

/-- **The law of the mask** holds exactly if the fields fit it. -/
theorem Updates.lawful_iff (h : Updates live fields rest req old new) :
    Lawful fields rest mask req old new ↔ Fitting live fields mask req old := by
  constructor
  · intro hlaw f hf
    have hsets := h.fields f hf
    refine ⟨fun hset => ?_, fun hunset hname => ?_⟩
    · rw [← hsets.set hset.1 hset.2]
      split
      · exact hlaw.named f hf ‹_›
      · exact hlaw.unnamed f hf ‹_›
    · rw [← hsets.unset hunset]
      exact hlaw.named f hf hname
  · intro hfit
    refine ⟨fun f hf hname => ?_, fun f hf hname => ?_, h.rest⟩
    · have hsets := h.fields f hf
      by_cases hset : live ∧ f.sets req
      · rw [hsets.set hset.1 hset.2, (hfit f hf).1 hset, if_pos hname]
      · rw [hsets.unset hset]
        exact (hfit f hf).2 hset hname
    · have hsets := h.fields f hf
      by_cases hset : live ∧ f.sets req
      · rw [hsets.set hset.1 hset.2, (hfit f hf).1 hset, if_neg hname]
      · exact hsets.unset hset

end FieldMask
