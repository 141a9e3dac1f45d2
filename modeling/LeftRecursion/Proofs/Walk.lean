import Mathlib.Logic.Relation

/-!
# Walks with prescribed stops

A walk may stop only at given points on its way from one end to the other. Allowing one more point
adds the walks that pass through it, and one visit to that point is enough (`walk_cons`), so walks
with finitely many stops can be searched for.
-/

namespace LeftRecursion

universe u

variable {α : Type u} {step : α → α → Prop} {stops : List α} {a b c : α}

/-- A walk of one or more steps. -/
inductive Walk (step : α → α → Prop) (stops : List α) : α → α → Prop
  | single {a c : α} : step a c → Walk step stops a c
  | tail {a b c : α} : Walk step stops a b → b ∈ stops → step b c → Walk step stops a c

namespace Walk

theorem mono {others : List α} (subset : ∀ x ∈ stops, x ∈ others) (w : Walk step stops a c) :
    Walk step others a c := by
  induction w with
  | single s => exact .single s
  | tail _ stop s ih => exact .tail ih (subset _ stop) s

theorem imp {other : α → α → Prop} (sub : ∀ x y, step x y → other x y)
    (w : Walk step stops a c) : Walk other stops a c := by
  induction w with
  | single s => exact .single (sub _ _ s)
  | tail _ stop s ih => exact .tail ih stop (sub _ _ s)

theorem trans (first : Walk step stops a b) (stop : b ∈ stops) (second : Walk step stops b c) :
    Walk step stops a c := by
  induction second with
  | single s => exact .tail first stop s
  | tail _ stop' s ih => exact .tail ih stop' s

end Walk

@[simp] theorem walk_nil : Walk step [] a c ↔ step a c := by
  refine ⟨fun w => ?_, .single⟩
  cases w with
  | single s => exact s
  | tail _ stop _ => cases stop

/-- A walk that may stop at `b` too either does not or goes there first and then on from there. -/
theorem walk_cons :
    Walk step (b :: stops) a c ↔ Walk step stops a c ∨ Walk step stops a b ∧ Walk step stops b c := by
  have subset : ∀ x ∈ stops, x ∈ b :: stops := fun _ => List.mem_cons_of_mem b
  constructor
  · intro w
    induction w with
    | single s => exact .inl (.single s)
    | tail _ stop s ih =>
      -- Only the last departure from `b` counts, so an earlier return to it is forgotten.
      rcases List.mem_cons.1 stop with rfl | stop
      · rcases ih with direct | ⟨first, _⟩
        · exact .inr ⟨direct, .single s⟩
        · exact .inr ⟨first, .single s⟩
      · rcases ih with direct | ⟨first, second⟩
        · exact .inl (.tail direct stop s)
        · exact .inr ⟨first, .tail second stop s⟩
  · rintro (w | ⟨first, second⟩)
    · exact w.mono subset
    · exact (first.mono subset).trans (List.mem_cons_self ..) (second.mono subset)

theorem walk_congr {others : List α} (same : ∀ x, x ∈ stops ↔ x ∈ others) :
    Walk step stops a c ↔ Walk step others a c :=
  ⟨Walk.mono fun x => (same x).1, Walk.mono fun x => (same x).2⟩

/-- Where a walk ends need not be allowed as a stop. -/
theorem walk_cons_self : Walk step (c :: stops) a c ↔ Walk step stops a c := by
  rw [walk_cons]
  exact ⟨fun w => w.elim id And.left, .inl⟩

instance decidableWalk [DecidableRel step] : (stops : List α) → DecidableRel (Walk step stops)
  | [], a, c => decidable_of_iff (step a c) walk_nil.symm
  | b :: stops, a, c =>
    have := decidableWalk stops
    decidable_of_iff (Walk step stops a c ∨ Walk step stops a b ∧ Walk step stops b c)
      walk_cons.symm

/-- If every step starts at a stop, walking is going any number of steps. -/
theorem transGen_iff_walk_of_source (source : ∀ x y, step x y → x ∈ stops) :
    Relation.TransGen step a c ↔ Walk step stops a c := by
  constructor
  · intro t
    induction t with
    | single s => exact .single s
    | tail _ s ih => exact .tail ih (source _ _ s) s
  · intro w
    induction w with
    | single s => exact .single s
    | tail _ _ s ih => exact .tail ih s

/-- Going from one of the stops to another is walking with all members among the stops. -/
theorem transGen_iff_walk (ha : a ∈ stops) (hc : c ∈ stops) :
    Relation.TransGen (fun x y => step x y ∧ x ∈ stops ∧ y ∈ stops) a c ↔
      Walk step stops a c := by
  constructor
  · intro t
    clear hc
    induction t with
    | single s => exact .single s.1
    | tail _ s ih => exact .tail ih s.2.1 s.1
  · intro w
    induction w with
    | single s => exact .single ⟨s, ha, hc⟩
    | tail _ stop s ih => exact .tail (ih stop) ⟨s, stop, hc⟩

end LeftRecursion
