import LeftRecursion.Proofs.Elimination.HelperNames
import LeftRecursion.Proofs.Trees.Count

/-!
# Elimination preserves the number of derivation trees

Every step leaves the number of trees of every word alone, for every name there was. A substitution
multiplies out a product that starts with a sum. A split solves an equation: what stands for itself
followed by `x`, or else for `y`, has as many trees as `y` followed by any number of `x`, and the
latter is what the helper counts (`count_helper`). Each half of an equality is leastness of the
counts of one grammar, so it is enough to see that those of the other solve its equations.
-/

namespace LeftRecursion

variable {l m : Char → Series}

theorem Body.sum_expandLeading {b : Char} {ds : List Body} (p : Body)
    (solved : l b = (ds.map (series l)).sum) :
    ((p.expandLeading b ds).map (series l)).sum = series l p := by
  by_cases starts : p.StartsWith b
  · calc ((p.expandLeading b ds).map (series l)).sum
        = (ds.map fun d => series l d * series l p.tail).sum := by
          rw [expandLeading_of_startsWith starts, List.map_map]
          simp only [Function.comp_def, series_append]
      _ = l b * series l p.tail := by rw [List.sum_map_mul_right, solved]
      _ = series l (.nonTerminal b :: p.tail) := series_nonTerminal_cons.symm
      _ = series l p := by rw [← startsWith_iff_cons_tail.1 starts]
  · rw [expandLeading_of_not_startsWith starts, List.map_singleton, List.sum_singleton]

namespace Grammar

variable {g h : Grammar} {a b c helper : Char}

theorem total_congr (same : g.alternatives a = h.alternatives a) : g.total l a = h.total l a := by
  rw [total, total, same]

theorem total_substitute (solved : l b = g.total l b) :
    (g.substitute a b).total l c = g.total l c := by
  rw [total, total, alternatives_substitute]
  split
  · next same =>
    subst same
    induction g.alternatives c with
    | nil => rfl
    | cons p ps ih =>
      rw [List.flatMap_cons, List.map_append, List.sum_append, Body.sum_expandLeading p solved, ih,
        List.map_cons, List.sum_cons]
  · rfl

theorem count_substitute (distinct : b ≠ a) : (g.substitute a b).count = g.count := by
  apply le_antisymm
  · apply count_le
    intro c
    rw [total_substitute (count_eq g b)]
    exact (count_eq g c).ge
  · have untouched : (g.substitute a b).alternatives b = g.alternatives b := by
      rw [alternatives_substitute, if_neg distinct]
    have solved := (count_eq (g.substitute a b) b).trans (total_congr untouched)
    apply count_le
    intro c
    rw [← total_substitute solved]
    exact (count_eq (g.substitute a b) c).ge

def loops (g : Grammar) (a : Char) (l : Char → Series) : Series :=
  ((g.recursive a).map fun p => Body.series l p.tail).sum

def bases (g : Grammar) (a : Char) (l : Char → Series) : Series :=
  ((g.others a).map (Body.series l)).sum

theorem loops_mono (le : l ≤ m) : g.loops a l ≤ g.loops a m :=
  List.sum_le_sum fun _ _ => Body.series_mono le

theorem total_eq_loops_add_bases (g : Grammar) (l : Char → Series) (a : Char) :
    g.total l a = l a * g.loops a l + g.bases a l := by
  have looping : ((g.recursive a).map (Body.series l)).sum = l a * g.loops a l := by
    rw [loops, ← List.sum_map_mul_left]
    congr 1
    apply List.map_congr_left
    intro p hp
    have starts := Body.startsWith_iff_cons_tail.1 (mem_recursive.1 hp).2
    calc Body.series l p
        = Body.series l (.nonTerminal a :: p.tail) := by rw [← starts]
      _ = l a * Body.series l p.tail := Body.series_nonTerminal_cons
  rw [← looping, bases, recursive, others, total]
  exact (List.sum_map_filter_add_sum_map_filter_not _ _ _).symm

section Unused

variable {f : Series} (unused : ¬g.Mentions helper)

include unused

theorem series_update {p q : Body} (hp : p ∈ g.alternatives a) (hq : q ⊆ p) :
    q.series (Function.update l helper f) = q.series l := by
  apply Body.series_congr
  intro b hb
  apply Function.update_of_ne
  rintro rfl
  exact unused (.intro hp (hq hb))

theorem loops_update : g.loops a (Function.update l helper f) = g.loops a l := by
  rw [loops, loops]
  congr 1
  apply List.map_congr_left
  intro p hp
  exact series_update unused (mem_recursive.1 hp).1 (List.tail_subset p)

theorem bases_update : g.bases a (Function.update l helper f) = g.bases a l := by
  rw [bases, bases]
  congr 1
  apply List.map_congr_left
  intro p hp
  exact series_update unused (mem_others.1 hp).1 (List.Subset.refl p)

theorem total_update : g.total (Function.update l helper f) a = g.total l a := by
  rw [total, total]
  congr 1
  apply List.map_congr_left
  intro p hp
  exact series_update unused hp (List.Subset.refl p)

end Unused

section Split

variable (ha : a ∈ g) (hh : helper ∉ g)

include ha hh

theorem total_splitInto_helper :
    (g.splitInto a helper).total l helper = g.loops a l * l helper + 1 := by
  rw [total, alternatives_splitInto ha hh, if_pos rfl, List.map_append, List.sum_append,
    List.map_map, loops, ← List.sum_map_mul_right]
  congr 1
  · simp only [Function.comp_def, Body.series_concat]
  · simp

theorem total_splitInto_self :
    (g.splitInto a helper).total l a = g.bases a l * l helper := by
  have distinct : a ≠ helper := by
    rintro rfl
    exact hh ha
  rw [total, alternatives_splitInto ha hh, if_neg distinct, if_pos rfl, List.map_map, bases,
    ← List.sum_map_mul_right]
  simp only [Function.comp_def, Body.series_concat]

theorem total_splitInto_of_ne (hc : c ≠ a) (hc' : c ≠ helper) :
    (g.splitInto a helper).total l c = g.total l c :=
  total_congr (alternatives_splitInto_of_ne ha hh hc hc')

/-- The helper counts the ways to go round the loops any number of times. -/
theorem count_helper :
    (g.splitInto a helper).count helper =
      (g.loops a (g.splitInto a helper).count).star := by
  set k := (g.splitInto a helper).count with hk
  have solution (c : Char) : k c = (g.splitInto a helper).total k c := count_eq _ c
  have star_le : (g.loops a k).star ≤ k helper := by
    apply Series.star_le
    rw [add_comm, ← total_splitInto_helper ha hh]
    exact (solution helper).ge
  -- Counting the star for the helper counts less for every body, and solves the equations.
  have below : Function.update k helper (g.loops a k).star ≤ k :=
    update_le_iff.2 ⟨star_le, fun _ _ => le_rfl⟩
  have least : k ≤ Function.update k helper (g.loops a k).star := by
    apply count_le
    intro c
    by_cases same : c = helper
    · subst same
      rw [total_splitInto_helper ha hh, Function.update_self, add_comm]
      calc 1 + g.loops a (Function.update k c (g.loops a k).star) * (g.loops a k).star
          ≤ 1 + g.loops a k * (g.loops a k).star :=
            add_le_add le_rfl (mul_le_mul' (loops_mono below) le_rfl)
        _ ≤ (g.loops a k).star := Series.one_add_mul_star_le _
    · rw [Function.update_of_ne same, solution c]
      exact total_mono below c
  apply le_antisymm _ star_le
  simpa using least helper

theorem count_le_splitInto : g.count ≤ (g.splitInto a helper).count := by
  set k := (g.splitInto a helper).count with hk
  have solution (c : Char) : k c = (g.splitInto a helper).total k c := count_eq _ c
  apply count_le
  intro c
  by_cases self : c = a
  · subst self
    have star : k helper = (g.loops c k).star := count_helper ha hh
    have here : k c = g.bases c k * k helper := by
      rw [solution c, total_splitInto_self ha hh]
    calc g.total k c
        = g.bases c k * k helper * g.loops c k + g.bases c k := by
          rw [total_eq_loops_add_bases, here]
      _ = g.bases c k * (1 + (g.loops c k).star * g.loops c k) := by
          rw [star, mul_add, mul_one, mul_assoc, add_comm]
      _ ≤ g.bases c k * (g.loops c k).star :=
          mul_le_mul' le_rfl (Series.one_add_star_mul_le _)
      _ = k c := by rw [here, star]
  · by_cases atHelper : c = helper
    · subst atHelper
      rw [total, alternatives_of_not_mem hh]
      exact Series.zero_le _
    · rw [← total_splitInto_of_ne ha hh self atHelper]
      exact (solution c).ge

theorem count_splitInto_le (unused : ¬g.Mentions helper) :
    (g.splitInto a helper).count ≤
      Function.update g.count helper (g.loops a g.count).star := by
  apply count_le
  intro c
  by_cases atHelper : c = helper
  · subst atHelper
    rw [total_splitInto_helper ha hh, Function.update_self, loops_update unused, add_comm]
    exact Series.one_add_mul_star_le _
  rw [Function.update_of_ne atHelper]
  by_cases self : c = a
  · subst self
    rw [total_splitInto_self ha hh, Function.update_self, bases_update unused]
    apply Series.mul_star_le
    rw [add_comm, ← total_eq_loops_add_bases]
    exact (count_eq g c).ge
  · rw [total_splitInto_of_ne ha hh self atHelper, total_update unused]
    exact (count_eq g c).ge

theorem count_splitInto (unused : ¬g.Mentions helper) (hc : c ≠ helper) :
    (g.splitInto a helper).count c = g.count c := by
  apply le_antisymm
  · have within := count_splitInto_le ha hh unused c
    rwa [Function.update_of_ne hc] at within
  · exact count_le_splitInto ha hh c

end Split

/-- A step keeps the number of trees from every name there was. -/
theorem Step.count_eq {names : List Char} (s : Step names g h)
    (declared : g.HelperNamesDeclared) (hc : c ∈ g) : h.count c = g.count c := by
  cases s with
  | substitute _ _ distinct _ => rw [count_substitute distinct]
  | split _ ha _ fresh =>
    have absent := not_mem_of_freshName fresh
    apply count_splitInto ha absent (declared.not_mentions fresh)
    rintro rfl
    exact absent hc

/-- Elimination keeps the number of derivation trees of every word from every name of the input. -/
theorem count_eliminate (declared : g.HelperNamesDeclared) (e : g.eliminate = .ok h) (ha : a ∈ g) :
    h.count a = g.count a := by
  have kept : h.HelperNamesDeclared ∧ ∀ a ∈ g, a ∈ h ∧ h.count a = g.count a := by
    apply eliminate_induction (P := fun k => k.HelperNamesDeclared ∧
      ∀ a ∈ g, a ∈ k ∧ k.count a = g.count a) e ⟨declared, fun a ha => ⟨ha, rfl⟩⟩
    intro k l s ⟨declared, same⟩
    refine ⟨declared.step s, fun a ha => ?_⟩
    obtain ⟨hk, eq⟩ := same a ha
    exact ⟨s.mem hk, (s.count_eq declared hk).trans eq⟩
  exact (kept.2 a ha).2

/-- A word has two derivation trees after the elimination exactly if it had two before. -/
theorem ambiguous_eliminate_iff (declared : g.HelperNamesDeclared) (e : g.eliminate = .ok h) :
    ∀ a ∈ g, ∀ w, h.Ambiguous a w ↔ g.Ambiguous a w := by
  intro a ha w
  rw [ambiguous_iff, ambiguous_iff, count_eliminate declared e ha]

def doubled : Grammar where
  rules := [⟨'S', ["Sa", "Sa", "b"].map Body.ofString⟩]
  nodup := by decide

def doubledFreed : Grammar where
  rules := [
    ⟨'S', ["bZ"].map Body.ofString⟩,
    ⟨'Z', ["aZ", "aZ", "e"].map Body.ofString⟩]
  nodup := by decide

theorem ambiguous_eliminate_iff_doubled :
    doubled.HelperNamesDeclared ∧ doubled.eliminate = .ok doubledFreed ∧
      doubled.Ambiguous 'S' ['b', 'a'] ∧ doubledFreed.Ambiguous 'S' ['b', 'a'] := by
  have declared : doubled.HelperNamesDeclared := by decide
  have freed : doubled.eliminate = .ok doubledFreed := rfl
  have tree (i : ℕ) (hi : (doubled.alternatives 'S')[i]? = some (Body.ofString "Sa")) :
      doubled.Parses [.nonTerminal 'S']
        (.expand i (.expand 2 (.keep .done) (.keep .done)) .done) ['b', 'a'] :=
    .nonTerminal (v := ['b', 'a']) hi
      (.nonTerminal (v := ['b']) rfl (.terminal .nil) (.terminal .nil)) .nil
  have before : doubled.Ambiguous 'S' ['b', 'a'] :=
    ⟨_, _, by decide, tree 0 rfl, tree 1 rfl⟩
  exact ⟨declared, freed, before,
    (ambiguous_eliminate_iff declared freed 'S' (by decide) _).2 before⟩

end Grammar

end LeftRecursion
