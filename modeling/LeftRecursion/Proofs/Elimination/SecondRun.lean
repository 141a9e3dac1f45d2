import LeftRecursion.Proofs.Elimination.LeftRecursionFree
import LeftRecursion.Proofs.Elimination.NotLeftRecursive

/-!
# Eliminating again

The result of an elimination is a grammar that can be eliminated once more. Its names that come from
the input lead forward, so the second run leaves them alone. Its helpers may still lead back, to names
of the input and to older helpers, and these are substituted now; but no name is left recursive, so no
helper is split and no further name is asked for. After the second run all names lead forward, and the
third finds nothing to do.
-/

namespace LeftRecursion

namespace Grammar

variable {g h : Grammar} {a b : Char}

/-- A name of the input leads forward in the result, also among the helpers. -/
theorem Shape.older_of_leadsAtOnce (shape : Shape g h) (stage : Stage g g.nonTerminals h)
    (ha : a ∈ g) (hb : b ∈ h) (leads : h.LeadsAtOnce a b) : h.Older a b := by
  obtain ⟨p, hp, starts⟩ := leads
  have known : b ∈ g := (shape.leadsAtOnce_of_leads ha (leads_of_startsWith hp starts)).2 hb
  have older : g.Older a b := stage.older ha ⟨p, hp, starts⟩
  exact (older_iff_of_extends shape.names ha known).2 older

/-- What leads forward in the order of `g` does so in its own order if that is the same. -/
theorem LeadsForward.self (forward : LeadsForward g h) (names : h.nonTerminals = g.nonTerminals) :
    LeadsForward h h := by
  unfold LeadsForward Older at *
  simp only [mem_iff, names]
  exact forward

/-- If bodies hold no sign of the empty word and unit alternatives do not run in a circle, the result
of elimination can be eliminated again. The second run adds no name and changes helpers only, and the
third changes nothing. -/
theorem eliminate_eliminate (free : g.EpsilonFree) (acyclic : g.NoUnitCycle)
    (declared : g.HelperNamesDeclared) (e : g.eliminate = .ok h) :
    ∃ k, h.eliminate = .ok k ∧ k.nonTerminals = h.nonTerminals ∧
      (∀ a ∈ g, k.alternatives a = h.alternatives a) ∧ k.eliminate = .ok k := by
  have shape := eliminate_shape free acyclic declared e
  have stage := stage_of_eliminate free.noEmptyBody e
  obtain ⟨k, again, stage', names⟩ :=
    exists_stage_of_not_leftRecursive stage.nonempty fun a _ => shape.not_leftRecursive stage a
  have forward : LeadsForward h k := fun a ha b _ leads => stage'.older ha leads
  refine ⟨k, again, names, ?_, ?_⟩
  · intro a ha
    exact alternatives_eliminate_of_forward (shape.mem ha)
      (fun b hb leads => shape.older_of_leadsAtOnce stage ha hb leads) again
  · exact eliminateFrom_eq_self (forward.self names) (List.nil_append _).symm

/-- What the second run makes of `crossed`: the helper `Z` is substituted into the helper `Y`. -/
def crossedTwice : Grammar where
  rules := [
    ⟨'S', ["AZ"].map Body.ofString⟩,
    ⟨'A', ["dY"].map Body.ofString⟩,
    ⟨'Z', ["aZ", "e"].map Body.ofString⟩,
    ⟨'Y', [Body.ofString "aZcY", .epsilon :: Body.ofString "cY", Body.epsilon]⟩]
  nodup := by decide

theorem eliminate_eliminate_crossed :
    (crossed.EpsilonFree ∧ crossed.NoUnitCycle ∧ crossed.HelperNamesDeclared) ∧
      crossed.eliminate = .ok crossedFreed ∧ crossedFreed.eliminate = .ok crossedTwice ∧
        crossedTwice ≠ crossedFreed ∧
          crossedTwice.nonTerminals = crossedFreed.nonTerminals ∧
            (∀ a ∈ crossed, crossedTwice.alternatives a = crossedFreed.alternatives a) ∧
              crossedTwice.eliminate = .ok crossedTwice := by
  have free : crossed.EpsilonFree := by decide
  have acyclic : crossed.NoUnitCycle := by decide
  have declared : crossed.HelperNamesDeclared := by decide
  have again : crossedFreed.eliminate = .ok crossedTwice := rfl
  obtain ⟨k, done, names, same, stable⟩ :=
    eliminate_eliminate free acyclic declared eliminate_crossed
  cases again.symm.trans done
  exact ⟨⟨free, acyclic, declared⟩, eliminate_crossed, again, by decide, names, same, stable⟩

end Grammar

end LeftRecursion
