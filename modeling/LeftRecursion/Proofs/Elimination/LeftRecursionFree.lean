import LeftRecursion.Grammar.Language
import LeftRecursion.Proofs.Elimination.Shape
import LeftRecursion.Proofs.Elimination.Stage

/-!
# No left recursion is left

A body with a visible symbol derives no empty word, so a name of the input leads only where its
alternatives start, which is to later names. A helper leads past helpers that vanish, but its
alternatives repeat it only behind a visible symbol: it leads to names of the input and to older
helpers. Helpers from the latest to the oldest, followed by the names of the input in their order,
are therefore an order that leading descends.
-/

namespace LeftRecursion

namespace Grammar

variable {g h : Grammar} {a b : Char} {p : Body} {w : List Char}

namespace Shape

theorem core_eq_nil_of_derives (shape : Shape g h) (derives : h.Derives p w) (empty : w = []) :
    g.core p = [] := by
  induction derives with
  | nil => rfl
  | epsilon _ ih =>
    have hidden : ¬g.Visible .epsilon := fun visible => visible.1 rfl
    rw [core_cons_of_not_visible hidden, ih empty]
  | terminal => cases empty
  | @nonTerminal a q p _ _ hq _ _ inner rest =>
    obtain ⟨first, second⟩ := List.append_eq_nil_iff.1 empty
    have hidden : ¬g.Visible (.nonTerminal a) := fun visible => by
      by_cases ha : a ∈ g
      · exact shape.core_ne_nil ha hq (inner first)
      · have declared := mem_of_mem_alternatives hq
        exact not_visible_of_mem_freeHelperNames (shape.mem_freeHelperNames declared ha) visible
    rw [core_cons_of_not_visible hidden, rest second]

/-- A name of the input sees only the symbol that an alternative starts with. -/
theorem leadsAtOnce_of_leads (shape : Shape g h) (ha : a ∈ g) (leads : h.Leads a b) :
    h.LeadsAtOnce a b ∧ (b ∈ h → b ∈ g) := by
  obtain ⟨u, v, hp, vanishes⟩ := leads
  obtain ⟨s, q, split, visible⟩ := shape.head a ha _ hp
  cases u with
  | nil =>
    cases split
    refine ⟨⟨_, hp, by simp⟩, fun hb => ?_⟩
    by_contra new
    exact not_visible_of_mem_freeHelperNames (shape.mem_freeHelperNames hb new) visible
  | cons s' u =>
    cases split
    have none := shape.core_eq_nil_of_derives vanishes rfl
    rw [core_cons_of_visible visible] at none
    cases none

/-- A helper leads only to names that are not helpers and to older helpers. -/
theorem older_of_leads (shape : Shape g h) (ha : a ∈ h) (new : a ∉ g) (leads : h.Leads a b)
    (hb : b ∈ helperNames) : h.Older b a := by
  obtain ⟨u, v, hp, vanishes⟩ := leads
  have none := shape.core_eq_nil_of_derives vanishes rfl
  rcases shape.helper a ha new _ hp with sign | ⟨q, split, some, older⟩
  · obtain ⟨-, same⟩ := List.append_eq_singleton_iff.1 sign |>.resolve_right (by simp)
    cases same
  · rcases List.eq_nil_or_concat v with rfl | ⟨v, last, rfl⟩
    · obtain ⟨rfl, -⟩ := List.append_inj' split rfl
      exact absurd none some
    · have parts : (u ++ .nonTerminal b :: v) ++ [last] = q ++ [.nonTerminal a] := by
        simpa using split
      obtain ⟨rfl, -⟩ := List.append_inj' parts rfl
      exact older b hb (by simp)

end Shape

/-- The place of a name in the order that leading descends. Names that are not declared come last,
and lead nowhere. -/
def height (g h : Grammar) (a : Char) : Nat :=
  if a ∈ g then h.nonTerminals.length - h.nonTerminals.idxOf a
  else if a ∈ h then h.nonTerminals.length + 1 + h.nonTerminals.idxOf a
  else 0

theorem Shape.height_lt_of_leads (shape : Shape g h) (stage : Stage g g.nonTerminals h)
    (leads : h.Leads a b) : height g h b < height g h a := by
  have place {c : Char} (hc : c ∈ h) : h.nonTerminals.idxOf c < h.nonTerminals.length :=
    List.idxOf_lt_length_iff.2 hc
  have ha : a ∈ h := by
    obtain ⟨_, _, hp, _⟩ := leads
    exact mem_of_mem_alternatives hp
  by_cases input : a ∈ g
  · obtain ⟨atOnce, known⟩ := shape.leadsAtOnce_of_leads input leads
    rw [height, height, if_pos input]
    by_cases hb : b ∈ g
    · have older : h.Older a b :=
        (older_iff_of_extends shape.names input hb).2 (stage.older input atOnce)
      have := place (shape.mem hb)
      rw [if_pos hb]
      unfold Older at older
      omega
    · rw [if_neg hb, if_neg fun hb' => hb (known hb')]
      exact Nat.sub_pos_of_lt (place ha)
  · rw [height, height, if_neg input, if_pos ha]
    by_cases hb : b ∈ g
    · rw [if_pos hb]
      omega
    rw [if_neg hb]
    by_cases hb' : b ∈ h
    · have older := shape.older_of_leads ha input leads (shape.added b hb' hb)
      rw [if_pos hb']
      unfold Older at older
      omega
    · rw [if_neg hb']
      omega

theorem Shape.not_leftRecursive (shape : Shape g h) (stage : Stage g g.nonTerminals h) (a : Char) :
    ¬h.LeftRecursive a :=
  not_leftRecursive_of_descends (height g h) (fun _ _ => shape.height_lt_of_leads stage) a

/-- If bodies hold no sign of the empty word and unit alternatives do not run in a circle, the
result of elimination has no left-recursive name, not even through helpers that vanish. -/
theorem not_leftRecursive_eliminate (free : g.EpsilonFree) (acyclic : g.NoUnitCycle)
    (declared : g.HelperNamesDeclared) (e : g.eliminate = .ok h) : ∀ a, ¬h.LeftRecursive a := by
  have shape := eliminate_shape free acyclic declared e
  have stage := stage_of_eliminate free.noEmptyBody e
  exact shape.not_leftRecursive stage

/-- Both names of the input are left recursive, none of the result is. -/
theorem not_leftRecursive_eliminate_crossed :
    (crossed.EpsilonFree ∧ crossed.NoUnitCycle ∧ crossed.HelperNamesDeclared) ∧
      crossed.eliminate = .ok crossedFreed ∧ ∀ a, ¬crossedFreed.LeftRecursive a :=
  have free : crossed.EpsilonFree := by decide
  have acyclic : crossed.NoUnitCycle := by decide
  have declared : crossed.HelperNamesDeclared := by decide
  ⟨⟨free, acyclic, declared⟩, eliminate_crossed,
    not_leftRecursive_eliminate free acyclic declared eliminate_crossed⟩

end Grammar

end LeftRecursion
