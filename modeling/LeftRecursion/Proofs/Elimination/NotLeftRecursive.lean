import LeftRecursion.Proofs.Elimination.FixedPoint
import LeftRecursion.Proofs.Elimination.HelperUse
import LeftRecursion.Proofs.Elimination.Turn
import LeftRecursion.Proofs.Language.Rewriting

/-!
# Grammars without left recursion

When the turn of a name comes, it has the alternatives that it had at the start, and it loses one
only by leading to a name before it or to itself. In a grammar without left recursion no name has to
be split, so elimination succeeds and adds no helper. But it substitutes every earlier name, whether
there is a recursion to be laid open or not, so the names that lead back to one do not keep their
alternatives (`eliminate_of_not_returnsToFront`).
-/

namespace LeftRecursion

namespace Grammar

variable {g h k : Grammar} {earlier remaining : List Char} {a b : Char} {s : String}

/-- The turn of a name that leads neither to an earlier name nor to itself changes nothing. -/
theorem turn_eq_self (ha : a ∈ k) (idle : ∀ b ∈ earlier ++ [a], ¬k.LeadsAtOnce a b)
    (done : ((k.expose a earlier).split a).result = .ok h) : h = k := by
  rw [expose_eq_self ha fun b hb => idle b (List.mem_append_left _ hb)] at done
  rcases split_cases done with ⟨_, same⟩ | ⟨loops, _⟩
  · exact same
  · exact absurd (recursive_eq_nil_iff.2 (idle a (by simp))) loops

/-- A name keeps its alternatives if it leads neither to an earlier name nor to itself. -/
theorem alternatives_eliminate_of_forward (ha : a ∈ g)
    (forward : ∀ b ∈ g, g.LeadsAtOnce a b → g.Older a b) (e : g.eliminate = .ok h) :
    h.alternatives a = g.alternatives a := by
  obtain ⟨earlier, remaining, order⟩ := List.append_of_mem ha
  obtain ⟨k, l, turn⟩ := exists_turn e order
  have here := turn.mem order
  have same := turn.alternatives_self order
  have unchanged : l = k := by
    refine turn_eq_self here (fun b hb => ?_) turn.done
    rw [leadsAtOnce_congr same]
    exact not_leadsAtOnce_of_forward forward order hb
  rw [turn.settled a (unchanged ▸ here) (by simp), unchanged, same]

def LeadsBack (g : Grammar) (a : Char) : Prop :=
  ∃ b, g.Older b a ∧ g.LeadsAtOnce a b

theorem leadsBack_iff :
    g.LeadsBack a ↔ ∃ b ∈ g.nonTerminals, g.Older b a ∧ g.LeadsAtOnce a b :=
  exists_congr fun _ => (and_iff_right_of_imp fun back => back.1.mem).symm

instance (g : Grammar) : DecidablePred g.LeadsBack := fun a =>
  have := List.decidableBEx (fun b => g.Older b a ∧ g.LeadsAtOnce a b) g.nonTerminals
  decidable_of_iff _ leadsBack_iff.symm

theorem older_of_leadsAtOnce (ha : a ∈ g) (noLoop : ¬g.LeadsAtOnce a a) (ahead : ¬g.LeadsBack a)
    (leads : g.LeadsAtOnce a b) : g.Older a b := by
  rcases Nat.lt_trichotomy (g.nonTerminals.idxOf a) (g.nonTerminals.idxOf b) with
    older | same | older
  · exact older
  · cases (List.idxOf_inj ha).1 same
    exact absurd leads noLoop
  · exact absurd ⟨b, older, leads⟩ ahead

theorem Stage.not_leadsBack (stage : Stage g g.nonTerminals h) (ha : a ∈ g)
    (same : h.alternatives a = g.alternatives a) : ¬g.LeadsBack a := by
  rintro ⟨b, older, leads⟩
  have younger : g.Older a b := stage.older ha ((leadsAtOnce_congr same).2 leads)
  exact Nat.lt_asymm older younger

theorem leftRecursive_of_returnsEarly (returns : g.ReturnsEarly a) : g.LeftRecursive a := by
  refine Relation.TransGen.mono ?_ a a returns
  rintro b c ⟨⟨p, hp, starts⟩, _⟩
  exact leads_of_startsWith hp starts

/-- A grammar without left recursion is not split anywhere. -/
theorem exists_stage_of_not_leftRecursive (nonempty : g.NoEmptyBody)
    (free : ∀ a ∈ g, ¬g.LeftRecursive a) :
    ∃ h, g.eliminate = .ok h ∧ Stage g g.nonTerminals h ∧ h.nonTerminals = g.nonTerminals := by
  have none : g.returning g.nonTerminals = 0 := by
    rw [returning, List.countP_eq_zero]
    intro a ha returns
    exact free a ha (leftRecursive_of_returnsEarly (of_decide_eq_true returns))
  rcases eliminate_stage nonempty with ⟨h, done, stage⟩ | ⟨few, _⟩
  · exact ⟨h, done, stage, by rw [stage.names, none, List.take_zero, List.append_nil]⟩
  · rw [none] at few
    exact absurd few (Nat.not_lt_zero _)

/-- Elimination of a grammar without left recursion succeeds and adds no name. A name keeps its
alternatives exactly if none of them starts with an earlier name, so the result is the input exactly
if this holds of every name. -/
theorem eliminate_of_not_returnsToFront (read : parse s = .ok g)
    (free : ∀ a ∈ g, ¬g.ReturnsToFront a) :
    (∃ h, g.eliminate = .ok h ∧ h.nonTerminals = g.nonTerminals ∧
        ∀ a ∈ g, h.alternatives a = g.alternatives a ↔ ¬g.LeadsBack a) ∧
      (g.eliminate = .ok g ↔ ∀ a ∈ g, ¬g.LeadsBack a) := by
  simp only [← leftRecursive_iff_returnsToFront] at free
  obtain ⟨h, done, stage, names⟩ :=
    exists_stage_of_not_leftRecursive (writable_of_parse read).noEmptyBody free
  have kept (a : Char) (ha : a ∈ g) : h.alternatives a = g.alternatives a ↔ ¬g.LeadsBack a := by
    have noLoop : ¬g.LeadsAtOnce a a := fun ⟨_, hp, starts⟩ =>
      free a ha (leftRecursive_of_startsWith hp starts)
    refine ⟨stage.not_leadsBack ha, fun ahead => ?_⟩
    exact alternatives_eliminate_of_forward ha
      (fun _ _ leads => older_of_leadsAtOnce ha noLoop ahead leads) done
  have unchanged : g.eliminate = .ok g ↔ ∀ a ∈ g, h.alternatives a = g.alternatives a := by
    rw [done, Except.ok.injEq]
    refine ⟨fun same a _ => by rw [same], fun same => ?_⟩
    exact ext_alternatives names fun a ha => same a (by rwa [mem_iff, ← names])
  exact ⟨⟨h, done, names, kept⟩, unchanged.trans (forall₂_congr kept)⟩

/-- Names with a rank such that each mentions lower ones only are not left recursive. -/
theorem not_leftRecursive_of_rank (rank : Char → Nat)
    (descends : ∀ a, ∀ p ∈ g.alternatives a, ∀ x ∈ p, x = .nonTerminal x.toChar →
      rank x.toChar < rank a) : ¬g.LeftRecursive a := by
  refine not_leftRecursive_of_descends rank ?_ a
  rintro a b ⟨u, v, hp, _⟩
  exact descends a _ hp (.nonTerminal b) (by simp) rfl

/-- `S` leads forward to `B`, which leads back to `A`, which leads nowhere. -/
def backward : Grammar where
  rules := [
    ⟨'S', ["Bb"].map Body.ofString⟩,
    ⟨'A', ["a"].map Body.ofString⟩,
    ⟨'B', ["Ac"].map Body.ofString⟩]
  nodup := by decide

def backwardFreed : Grammar where
  rules := [
    ⟨'S', ["Bb"].map Body.ofString⟩,
    ⟨'A', ["a"].map Body.ofString⟩,
    ⟨'B', ["ac"].map Body.ofString⟩]
  nodup := by decide

theorem not_returnsToFront_backward : ¬backward.ReturnsToFront a := by
  rw [← leftRecursive_iff_returnsToFront]
  apply not_leftRecursive_of_rank fun c => ['A', 'B', 'S'].idxOf c
  rw [forall_mem_alternatives_iff]
  decide

theorem eliminate_of_not_returnsToFront_backward :
    parse "S -> Bb\nA -> a\nB -> Ac" = .ok backward ∧ (∀ a ∈ backward, ¬backward.ReturnsToFront a) ∧
      (∃ h, backward.eliminate = .ok h ∧ h.nonTerminals = backward.nonTerminals ∧
        h.alternatives 'S' = backward.alternatives 'S' ∧
          h.alternatives 'B' ≠ backward.alternatives 'B') ∧
        backward.eliminate ≠ .ok backward := by
  have read : parse "S -> Bb\nA -> a\nB -> Ac" = .ok backward := by decide +kernel
  have free : ∀ a ∈ backward, ¬backward.ReturnsToFront a := fun _ _ => not_returnsToFront_backward
  obtain ⟨⟨h, done, names, kept⟩, unchanged⟩ := eliminate_of_not_returnsToFront read free
  have back : backward.LeadsBack 'B' := by decide
  refine ⟨read, free, ⟨h, done, names, ?_, ?_⟩, fun same => ?_⟩
  · exact (kept 'S' (by decide)).2 (by decide)
  · exact fun same => (kept 'B' (by decide)).1 same back
  · exact unchanged.1 same 'B' (by decide) back

/-- No name is left recursive, and yet `A` is substituted into `B`. -/
theorem eliminate_backward :
    parse "S -> Bb\nA -> a\nB -> Ac" = .ok backward ∧ (∀ a ∈ backward, ¬backward.ReturnsToFront a) ∧
      backward.eliminate = .ok backwardFreed ∧ backward.eliminate ≠ .ok backward := by
  have done : backward.eliminate = .ok backwardFreed := rfl
  refine ⟨by decide +kernel, fun _ _ => not_returnsToFront_backward, done, ?_⟩
  rw [done]
  decide

end Grammar

end LeftRecursion
