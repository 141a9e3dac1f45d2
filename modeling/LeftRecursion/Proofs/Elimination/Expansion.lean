import LeftRecursion.Proofs.Elimination.FixedPoint
import LeftRecursion.Proofs.Elimination.Turn

/-!
# Elimination as expansion

The turn of a name passes over its alternatives once for each earlier name. What comes out is what
one recursion makes of them that replaces a leading earlier name by its final alternatives until
none is left (`Grammar.Expands`): the alternatives of an earlier name start with later names only,
so the recursion ends, and a pass never has to look back.
-/

namespace LeftRecursion

namespace Grammar

variable {g h k : Grammar} {bs earlier remaining : List Char} {a b : Char} {p d : Body}
  {ps qs : List Body}

/-- `h.Expands bs p qs` says that `p` becomes `qs` when a leading name out of `bs` gives way to each
of its alternatives in turn, and each of the bodies that come out is treated in the same way before
the next one. -/
inductive Expands (h : Grammar) (bs : List Char) : Body → List Body → Prop
  | keep {p : Body} : (∀ b ∈ bs, ¬p.StartsWith b) → Expands h bs p [p]
  | expand {b : Char} {p : Body} {f : Body → List Body} :
      b ∈ bs → (∀ d ∈ h.alternatives b, Expands h bs (d ++ p) (f d)) →
        Expands h bs (.nonTerminal b :: p) ((h.alternatives b).flatMap f)

theorem Expands.unique (first : h.Expands bs p ps) (second : h.Expands bs p qs) : ps = qs := by
  induction first generalizing qs with
  | keep stops =>
    cases second with
    | keep => rfl
    | expand hb _ => exact absurd (Body.startsWith_cons.2 rfl) (stops _ hb)
  | expand hb _ ih =>
    cases second with
    | keep stops => exact absurd (Body.startsWith_cons.2 rfl) (stops _ hb)
    | expand _ further => exact List.flatMap_congr fun d hd => ih d hd (further d hd)

/-- What becomes of `p` when each of `bs` is substituted once, one after the other. -/
def expandInTurn (h : Grammar) (bs : List Char) (p : Body) : List Body :=
  bs.foldl (fun qs b => qs.flatMap (Body.expandLeading b (h.alternatives b))) [p]

theorem expandInTurn_concat (h : Grammar) (bs : List Char) (b : Char) (p : Body) :
    h.expandInTurn (bs ++ [b]) p =
      (h.expandInTurn bs p).flatMap (Body.expandLeading b (h.alternatives b)) := by
  simp [expandInTurn]

theorem expandInTurn_congr (same : ∀ b ∈ bs, h.alternatives b = k.alternatives b) (p : Body) :
    h.expandInTurn bs p = k.expandInTurn bs p := by
  induction bs using List.reverseRecOn with
  | nil => rfl
  | append_singleton bs b ih =>
    rw [List.forall_mem_append, List.forall_mem_singleton] at same
    rw [expandInTurn_concat, expandInTurn_concat, ih same.1, same.2]

theorem alternatives_expose (others : ∀ b ∈ bs, b ≠ a) :
    (k.expose a bs).alternatives a = (k.alternatives a).flatMap (k.expandInTurn bs) := by
  induction bs using List.reverseRecOn with
  | nil => exact (List.flatMap_singleton' _).symm
  | append_singleton bs b ih =>
    rw [List.forall_mem_append, List.forall_mem_singleton] at others
    rw [expose_concat, alternatives_substitute, if_pos rfl, ih others.1,
      alternatives_expose_of_ne others.2, List.flatMap_assoc]
    exact List.flatMap_congr fun p _ => (expandInTurn_concat k bs b p).symm

def LeadOnward (h : Grammar) (bs : List Char) : Prop :=
  ∀ before b behind, bs = before ++ b :: behind →
    ∀ d ∈ h.alternatives b, d ≠ [] ∧ ∀ c ∈ before ++ [b], ¬d.StartsWith c

theorem LeadOnward.of_concat (onward : h.LeadOnward (bs ++ [b])) : h.LeadOnward bs := by
  intro before c behind split
  exact onward before c (behind ++ [b]) (by rw [split, List.append_assoc, List.cons_append])

/-- One more name is replaced at the end of the recursion, and there its alternatives stay. -/
theorem Expands.concat (onward : ∀ d ∈ h.alternatives b, d ≠ [] ∧ ∀ c ∈ bs ++ [b], ¬d.StartsWith c)
    (expands : h.Expands bs p qs) :
    h.Expands (bs ++ [b]) p (qs.flatMap (Body.expandLeading b (h.alternatives b))) := by
  induction expands with
  | @keep p stops =>
    rw [List.flatMap_singleton]
    by_cases here : p.StartsWith b
    · have replaced (d : Body) (hd : d ∈ h.alternatives b) :
          h.Expands (bs ++ [b]) (d ++ p.tail) [d ++ p.tail] := by
        obtain ⟨nonempty, first⟩ := onward d hd
        exact .keep fun c hc starts => first c hc ((Body.startsWith_append nonempty).1 starts)
      rw [Body.expandLeading_of_startsWith here, List.map_eq_flatMap]
      conv => arg 3; rw [Body.startsWith_iff_cons_tail.1 here]
      exact .expand (List.mem_append_right _ (List.mem_singleton_self b)) replaced
    · rw [Body.expandLeading_of_not_startsWith here]
      refine .keep fun c hc => ?_
      rcases List.mem_append.1 hc with hc | hc
      · exact stops c hc
      · exact List.mem_singleton.1 hc ▸ here
  | expand hb _ ih =>
    rw [List.flatMap_assoc]
    exact .expand (List.mem_append_left _ hb) ih

theorem expands_expandInTurn (onward : h.LeadOnward bs) (p : Body) :
    h.Expands bs p (h.expandInTurn bs p) := by
  induction bs using List.reverseRecOn with
  | nil => exact .keep (by simp)
  | append_singleton bs b ih =>
    rw [expandInTurn_concat]
    exact (ih onward.of_concat).concat (onward bs b [] rfl)

theorem expands_iff (onward : h.LeadOnward bs) : h.Expands bs p qs ↔ qs = h.expandInTurn bs p := by
  have passes := expands_expandInTurn onward p
  exact ⟨fun expands => expands.unique passes, fun same => same ▸ passes⟩

theorem Stage.leadOnward (s : Stage g g.nonTerminals h)
    (order : g.nonTerminals = earlier ++ a :: remaining) : h.LeadOnward earlier := by
  intro before b behind split d hd
  refine ⟨s.nonempty b d hd, fun c hc starts => ?_⟩
  have order' : g.nonTerminals = before ++ b :: (behind ++ a :: remaining) := by
    rw [order, split, List.append_assoc, List.cons_append]
  exact ((s.leading order').1 ⟨d, hd, starts⟩).1 hc

/-- Before it is split, a name has the expansions of the alternatives that it had at the start. -/
theorem Turn.alternatives_exposed {l : Grammar} (turn : Turn g h earlier a k l)
    (order : g.nonTerminals = earlier ++ a :: remaining) :
    (k.expose a earlier).alternatives a = (g.alternatives a).flatMap (h.expandInTurn earlier) := by
  rw [alternatives_expose fun b hb => ne_of_mem_before order hb, turn.alternatives_self order]
  exact List.flatMap_congr fun p _ =>
    (expandInTurn_congr (fun b hb => turn.alternatives_of_mem_earlier order hb) p).symm

/-- The expansion over the earlier names is a function, and it makes of the alternatives of a name
what the name has in the end: all of them if none starts with the name, and otherwise what the split
into the name and its helper leaves to each. -/
theorem alternatives_eliminate_eq_expansion (nonempty : g.NoEmptyBody) (e : g.eliminate = .ok h)
    (order : g.nonTerminals = earlier ++ a :: remaining) :
    ∃ expand : Body → List Body, (∀ p qs, h.Expands earlier p qs ↔ qs = expand p) ∧
      let ps := (g.alternatives a).flatMap expand
      let loops := ps.filter (·.StartsWith a)
      let bases := ps.filter (¬ ·.StartsWith a)
      (loops = [] → h.alternatives a = ps) ∧
        (loops ≠ [] → ∃ helper, helper ∉ g ∧
          .split a helper loops.length bases.length ∈ g.eliminateTraced.events ∧
          h.alternatives a = bases.map (· ++ [.nonTerminal helper]) ∧
          h.alternatives helper =
            loops.map (·.tail ++ [.nonTerminal helper]) ++ [Body.epsilon]) := by
  obtain ⟨k, l, turn⟩ := exists_turn e order
  have onward := (stage_of_eliminate nonempty e).leadOnward order
  have here : a ∈ k.expose a earlier := (mem_expose (turn.mem order) earlier).2 (turn.mem order)
  have own := turn.settled a (mem_turn (turn.mem order) turn.done (turn.mem order)) (by simp)
  refine ⟨h.expandInTurn earlier, fun p qs => expands_iff onward, ?_⟩
  rw [← turn.alternatives_exposed order]
  rcases split_cases turn.done with ⟨none, rfl⟩ | ⟨some, helper, fresh, rfl⟩
  · exact ⟨fun _ => own, fun some => absurd none some⟩
  · have absent := not_mem_of_freshName fresh
    have new : helper ∉ g := fun hg =>
      absent ((mem_expose (turn.mem order) earlier).2 (turn.declared helper hg))
    have distinct : a ≠ helper := fun same => absent (same ▸ here)
    have added : helper ∈ (k.expose a earlier).splitInto a helper :=
      (mem_splitInto here absent).2 (.inr rfl)
    refine ⟨fun none => absurd none some, fun _ => ⟨helper, new, ?_, ?_, ?_⟩⟩
    · exact turn.reported _ (mem_events_split some fresh)
    · rw [own, alternatives_splitInto here absent, if_neg distinct, if_pos rfl]
      rfl
    · rw [turn.settled helper added fun hg => absurd hg new, alternatives_splitInto here absent,
        if_pos rfl]
      rfl

theorem alternatives_eliminate_eq_expansion_crossed :
    crossed.NoEmptyBody ∧ crossed.eliminate = .ok crossedFreed ∧
      crossed.nonTerminals = ['S'] ++ 'A' :: [] ∧
      (∃ expand : Body → List Body, (∀ p qs, crossedFreed.Expands ['S'] p qs ↔ qs = expand p) ∧
        (crossed.alternatives 'A').flatMap expand = ["AZc", "d"].map Body.ofString) ∧
      ∃ helper, helper ∉ crossed ∧ .split 'A' helper 1 1 ∈ crossed.eliminateTraced.events ∧
        crossedFreed.alternatives 'A' = [Body.ofString "d" ++ [.nonTerminal helper]] ∧
        crossedFreed.alternatives helper =
          [Body.ofString "Zc" ++ [.nonTerminal helper], Body.epsilon] := by
  have nonempty : crossed.NoEmptyBody := by decide
  have order : crossed.nonTerminals = ['S'] ++ 'A' :: [] := rfl
  obtain ⟨expand, graph, _, split⟩ :=
    alternatives_eliminate_eq_expansion nonempty eliminate_crossed order
  have stops (d : Body) (hd : d ∈ crossedFreed.alternatives 'S') :
      crossedFreed.Expands ['S'] (d ++ [.terminal 'c']) [d ++ [.terminal 'c']] := by
    have same : d = Body.ofString "AZ" := List.mem_singleton.1 hd
    exact .keep (List.forall_mem_singleton.2 (by rw [same]; decide))
  have replaced : crossedFreed.Expands ['S'] (Body.ofString "Sc") [Body.ofString "AZc"] :=
    .expand (List.mem_singleton_self 'S') stops
  have kept : crossedFreed.Expands ['S'] (Body.ofString "d") [Body.ofString "d"] :=
    .keep (List.forall_mem_singleton.2 (by decide))
  have expanded : (crossed.alternatives 'A').flatMap expand = ["AZc", "d"].map Body.ofString := by
    have own : crossed.alternatives 'A' = ["Sc", "d"].map Body.ofString := rfl
    rw [own, List.map_cons, List.map_singleton, List.flatMap_cons, List.flatMap_singleton,
      ← (graph _ _).1 replaced, ← (graph _ _).1 kept]
    rfl
  simp only [expanded] at split
  exact ⟨nonempty, eliminate_crossed, order, ⟨expand, graph, expanded⟩, split (by decide)⟩

end Grammar

end LeftRecursion
