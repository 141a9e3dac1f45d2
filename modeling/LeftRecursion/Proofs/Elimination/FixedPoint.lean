import LeftRecursion.Proofs.Elimination.Stage

/-!
# Grammars that elimination leaves alone

Elimination turns every lead from a name of the input to another into one that goes forward in the
order of declaration. If all leads go forward from the start, no substitution finds anything to
replace and no name has to be split, so the grammar stays as it is. These are the only grammars that
do (`leadsForward_and_eliminate_eq_self_iff`).
-/

namespace LeftRecursion

namespace Grammar

variable {g h : Grammar} {earlier remaining : List Char} {a b : Char}

def LeadsForward (g h : Grammar) : Prop :=
  ∀ a ∈ g, ∀ b ∈ g, h.LeadsAtOnce a b → g.Older a b

instance (g h : Grammar) : Decidable (LeadsForward g h) :=
  have (a : Char) := List.decidableBAll (fun b => h.LeadsAtOnce a b → g.Older a b) g.nonTerminals
  List.decidableBAll (fun a => ∀ b ∈ g.nonTerminals, h.LeadsAtOnce a b → g.Older a b)
    g.nonTerminals

theorem not_leadsAtOnce_of_forward (forward : ∀ b ∈ g, g.LeadsAtOnce a b → g.Older a b)
    (order : g.nonTerminals = earlier ++ a :: remaining) (hb : b ∈ earlier ++ [a]) :
    ¬g.LeadsAtOnce a b := by
  intro leads
  have declared : b ∈ g := by
    rw [mem_iff, order, ← List.singleton_append, ← List.append_assoc]
    exact List.mem_append_left remaining hb
  exact (older_iff_not_mem order).1 (forward b declared leads) hb

theorem substitute_eq_self (ha : a ∈ g) (idle : ¬g.LeadsAtOnce a b) : g.substitute a b = g := by
  have names : (g.substitute a b).nonTerminals = g.nonTerminals := nonTerminals_substitute ha b
  apply ext_alternatives names
  intro c _
  rw [alternatives_substitute]
  split
  · next same =>
    subst same
    have alone : ∀ p ∈ g.alternatives c, p.expandLeading b (g.alternatives b) = [p] := by
      intro p hp
      apply Body.expandLeading_of_not_startsWith
      exact fun starts => idle ⟨p, hp, starts⟩
    rw [List.flatMap_congr alone, List.flatMap_singleton']
  · rfl

theorem expose_eq_self (ha : a ∈ g) {bs : List Char} (idle : ∀ b ∈ bs, ¬g.LeadsAtOnce a b) :
    g.expose a bs = g := by
  induction bs with
  | nil => exact expose_nil g a
  | cons b bs ih =>
    obtain ⟨first, rest⟩ := List.forall_mem_cons.1 idle
    rw [expose_cons, substitute_eq_self ha first]
    exact ih rest

theorem eliminateFrom_eq_self (forward : LeadsForward g g)
    (order : g.nonTerminals = earlier ++ remaining) :
    (g.eliminateFrom earlier remaining).result = .ok g := by
  induction remaining generalizing earlier with
  | nil => exact result_eliminateFrom_nil g earlier
  | cons a remaining ih =>
    have idle (b : Char) (hb : b ∈ earlier ++ [a]) : ¬g.LeadsAtOnce a b :=
      not_leadsAtOnce_of_forward (forward a (mem_of_order order)) order hb
    have exposed : g.expose a earlier = g :=
      expose_eq_self (mem_of_order order) fun b hb => idle b (List.mem_append_left _ hb)
    have unsplit : g.split a = pure g := by
      apply split_of_recursive_eq_nil
      exact recursive_eq_nil_iff.2 (idle a (by simp))
    rw [result_eliminateFrom_cons, exposed, unsplit]
    exact ih (by simpa using order)

/-- A name of the input leads forward after the elimination, and elimination returns its input
exactly if this holds already of the input. -/
theorem leadsForward_and_eliminate_eq_self_iff (nonempty : g.NoEmptyBody) :
    (∀ h, g.eliminate = .ok h → LeadsForward g h) ∧
      (g.eliminate = .ok g ↔ LeadsForward g g) := by
  have ordered (h : Grammar) (e : g.eliminate = .ok h) : LeadsForward g h := by
    intro a ha b _ leads
    exact (stage_of_eliminate nonempty e).older ha leads
  refine ⟨ordered, ordered g, fun forward => ?_⟩
  exact eliminateFrom_eq_self forward (List.nil_append _).symm

/-- Three names that lead forward, one of them past a name that is not declared. -/
def forward : Grammar where
  rules := [
    ⟨'S', ["AB", "c"].map Body.ofString⟩,
    ⟨'A', ["BS", "aA", "e"].map Body.ofString⟩,
    ⟨'B', ["ZB", "b"].map Body.ofString⟩]
  nodup := by decide

theorem leadsForward_and_eliminate_eq_self_iff_forward :
    (forward.NoEmptyBody ∧ LeadsForward forward forward ∧ forward.eliminate = .ok forward) ∧
      crossed.NoEmptyBody ∧ LeadsForward crossed crossedFreed ∧
        ¬LeadsForward crossed crossed ∧ crossed.eliminate ≠ .ok crossed := by
  have backward : ¬LeadsForward crossed crossed := by decide
  refine ⟨⟨by decide, by decide, ?_⟩, by decide, ?_, backward, ?_⟩
  · exact (leadsForward_and_eliminate_eq_self_iff (by decide)).2.2 (by decide)
  · exact (leadsForward_and_eliminate_eq_self_iff (by decide)).1 crossedFreed eliminate_crossed
  · exact fun same => backward ((leadsForward_and_eliminate_eq_self_iff (by decide)).2.1 same)

end Grammar

end LeftRecursion
