import LeftRecursion.Grammar.Language
import Mathlib.Logic.Relation

/-!
# Rewriting

One step of rewriting replaces a non-terminal in a body by one of its alternatives. A non-terminal
is left recursive exactly if rewriting brings it back to the front, apart from symbols that derive
the empty word (`leftRecursive_iff_returnsToFront`).
-/

namespace LeftRecursion

namespace Grammar

variable {g : Grammar} {a b : Char} {p q u v : Body}

inductive Rewrites (g : Grammar) : Body → Body → Prop
  | intro {a : Char} {q : Body} (u v : Body) :
      q ∈ g.alternatives a → Rewrites g (u ++ .nonTerminal a :: v) (u ++ q ++ v)

def InFront (g : Grammar) (b : Char) (p : Body) : Prop :=
  ∃ u v, p = u ++ .nonTerminal b :: v ∧ g.Derives u []

/-- In one or more steps `a` becomes a body with `a` in front. -/
def ReturnsToFront (g : Grammar) (a : Char) : Prop :=
  ∃ p, Relation.TransGen g.Rewrites [.nonTerminal a] p ∧ g.InFront a p

theorem derives_append_nil : g.Derives (u ++ v) [] ↔ g.Derives u [] ∧ g.Derives v [] := by
  simp only [derives_empty_iff, List.forall_mem_append]

theorem leads_iff_inFront : g.Leads a b ↔ ∃ p ∈ g.alternatives a, g.InFront b p := by
  constructor
  · rintro ⟨u, v, hp, vanishes⟩
    exact ⟨_, hp, u, v, rfl, vanishes⟩
  · rintro ⟨_, hp, u, v, rfl, vanishes⟩
    exact ⟨u, v, hp, vanishes⟩

/-- What is in front of two bodies is in front of the first, or the first derives the empty word. -/
theorem inFront_append_iff :
    g.InFront b (p ++ q) ↔ g.InFront b p ∨ g.Derives p [] ∧ g.InFront b q := by
  constructor
  · rintro ⟨u, v, parts, vanishes⟩
    rcases List.append_eq_append_iff.1 parts with ⟨u', rfl, rfl⟩ | ⟨v', rfl, split⟩
    · obtain ⟨vanishes, vanishes'⟩ := derives_append_nil.1 vanishes
      exact .inr ⟨vanishes, u', v, rfl, vanishes'⟩
    · rcases List.cons_eq_append_iff.1 split with ⟨rfl, rfl⟩ | ⟨v'', rfl, rfl⟩
      · rw [List.append_nil]
        exact .inr ⟨vanishes, [], v, rfl, .nil⟩
      · exact .inl ⟨u, v'', rfl, vanishes⟩
  · rintro (⟨u, v, rfl, vanishes⟩ | ⟨vanishes, u, v, rfl, vanishes'⟩)
    · exact ⟨u, v ++ q, by simp, vanishes⟩
    · exact ⟨p ++ u, v, by simp, derives_append_nil.2 ⟨vanishes, vanishes'⟩⟩

theorem inFront_cons_self (a : Char) (v : Body) : g.InFront a (.nonTerminal a :: v) :=
  ⟨[], v, rfl, .nil⟩

theorem exists_rewrites_of_leads (t : Relation.TransGen g.Leads a b) :
    ∃ p, Relation.TransGen g.Rewrites [.nonTerminal a] p ∧ g.InFront b p := by
  induction t with
  | single leads =>
    obtain ⟨p, hp, front⟩ := leads_iff_inFront.1 leads
    have first := Rewrites.intro [] [] hp
    rw [List.nil_append, List.nil_append, List.append_nil] at first
    exact ⟨p, .single first, front⟩
  | tail _ leads ih =>
    obtain ⟨_, steps, u, v, rfl, vanishes⟩ := ih
    obtain ⟨q, hq, front⟩ := leads_iff_inFront.1 leads
    refine ⟨u ++ q ++ v, steps.tail (.intro u v hq), inFront_append_iff.2 (.inl ?_)⟩
    exact inFront_append_iff.2 (.inr ⟨vanishes, front⟩)

/-- What is in front after a step was there before, or what was there leads to it. -/
theorem exists_inFront_of_rewrites (step : g.Rewrites p q) (front : g.InFront b q) :
    ∃ a, g.InFront a p ∧ (a = b ∨ g.Leads a b) := by
  cases step with
  | @intro a q u v hq =>
    rw [List.append_assoc, inFront_append_iff, inFront_append_iff] at front
    rcases front with front | ⟨vanishes, front | ⟨vanishes', front⟩⟩
    · exact ⟨b, inFront_append_iff.2 (.inl front), .inl rfl⟩
    · refine ⟨a, inFront_append_iff.2 (.inr ⟨vanishes, inFront_cons_self a v⟩), .inr ?_⟩
      exact leads_iff_inFront.2 ⟨q, hq, front⟩
    · have gone : g.Derives [.nonTerminal a] [] := derives_singleton.2 ⟨q, hq, vanishes'⟩
      have behind : g.InFront b ([.nonTerminal a] ++ v) := inFront_append_iff.2 (.inr ⟨gone, front⟩)
      exact ⟨b, inFront_append_iff.2 (.inr ⟨vanishes, behind⟩), .inl rfl⟩

theorem mem_alternatives_of_rewrites (step : g.Rewrites [.nonTerminal a] p) :
    p ∈ g.alternatives a := by
  generalize start : [Symbol.nonTerminal a] = form at step
  cases step with
  | intro u v hq =>
    obtain ⟨rfl, same⟩ | ⟨_, none⟩ := List.append_eq_singleton_iff.1 start.symm
    · cases same
      simpa using hq
    · cases none

theorem exists_inFront_of_steps (steps : Relation.ReflTransGen g.Rewrites p q)
    (front : g.InFront b q) : ∃ a, g.InFront a p ∧ Relation.ReflTransGen g.Leads a b := by
  induction steps using Relation.ReflTransGen.head_induction_on with
  | refl => exact ⟨b, front, .refl⟩
  | head step _ ih =>
    obtain ⟨c, front', leads⟩ := ih
    obtain ⟨a, front'', same | leads'⟩ := exists_inFront_of_rewrites step front'
    · exact ⟨a, front'', same ▸ leads⟩
    · exact ⟨a, front'', .head leads' leads⟩

theorem leftRecursive_iff_returnsToFront : g.LeftRecursive a ↔ g.ReturnsToFront a := by
  refine ⟨exists_rewrites_of_leads, ?_⟩
  rintro ⟨p, steps, front⟩
  obtain ⟨q, first, rest⟩ := Relation.TransGen.head'_iff.1 steps
  obtain ⟨b, front', leads⟩ := exists_inFront_of_steps rest front
  have here : g.Leads a b := leads_iff_inFront.2 ⟨q, mem_alternatives_of_rewrites first, front'⟩
  exact Relation.TransGen.head'_iff.2 ⟨b, here, leads⟩

end Grammar

end LeftRecursion
