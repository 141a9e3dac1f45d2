import LeftRecursion.Proofs.Elimination.HelperNames
import LeftRecursion.Proofs.Elimination.LeadingGraph

/-!
# The shape of the alternatives

All that elimination puts into a body are helpers, so every body keeps a core of symbols of the
input. An alternative of a name of the input starts with its core, and if the core is a single
non-terminal, then unit alternatives of the input lead to it. Without cycles of these the
alternatives of a helper have a core too, but for the one that ends it, and they hold no helpers but
itself at the end and older ones.
-/

namespace LeftRecursion

namespace Grammar

variable {g h k : Grammar} {names : List Char} {a b c d helper : Char} {p q : Body} {s : Symbol}

/-- The symbol is neither a sign of the empty word nor a helper in any elimination of `g`. -/
def Visible (g : Grammar) (s : Symbol) : Prop :=
  s ≠ .epsilon ∧ ∀ c ∈ g.freeHelperNames, s ≠ .nonTerminal c

instance (g : Grammar) : DecidablePred g.Visible := fun s =>
  have := List.decidableBAll (fun c => s ≠ .nonTerminal c) g.freeHelperNames
  inferInstanceAs (Decidable (s ≠ .epsilon ∧ ∀ c ∈ g.freeHelperNames, s ≠ .nonTerminal c))

theorem visible_of_mem (ha : a ∈ g) : g.Visible (.nonTerminal a) := by
  refine ⟨by simp, ?_⟩
  rintro c hc same
  cases same
  exact (mem_freeHelperNames.1 hc).2 ha

theorem not_visible_of_mem_freeHelperNames (hc : c ∈ g.freeHelperNames) :
    ¬g.Visible (.nonTerminal c) := fun visible =>
  visible.2 c hc rfl

def core (g : Grammar) (p : Body) : Body :=
  p.filter (g.Visible ·)

@[simp] theorem core_append : g.core (p ++ q) = g.core p ++ g.core q :=
  List.filter_append p q

theorem core_cons_of_visible (visible : g.Visible s) : g.core (s :: p) = s :: g.core p :=
  List.filter_cons_of_pos (decide_eq_true visible)

theorem core_cons_of_not_visible (hidden : ¬g.Visible s) : g.core (s :: p) = g.core p :=
  List.filter_cons_of_neg (by simpa using hidden)

theorem core_concat_helper (hc : c ∈ g.freeHelperNames) :
    g.core (p ++ [.nonTerminal c]) = g.core p := by
  have hidden : g.core [.nonTerminal c] = [] := by
    simpa [core] using not_visible_of_mem_freeHelperNames hc
  rw [core_append, hidden, List.append_nil]

theorem core_ne_nil_iff : g.core p ≠ [] ↔ ∃ s ∈ p, g.Visible s := by
  simp [core, List.filter_eq_nil_iff]

theorem core_eq_self (visible : ∀ s ∈ p, g.Visible s) : g.core p = p :=
  List.filter_eq_self.2 fun s hs => decide_eq_true (visible s hs)

/-- No alternative is empty or holds a sign of the empty word. -/
def EpsilonFree (g : Grammar) : Prop :=
  ∀ a, ∀ p ∈ g.alternatives a, p ≠ [] ∧ .epsilon ∉ p

instance (g : Grammar) : Decidable g.EpsilonFree :=
  decidable_of_iff _ forall_mem_alternatives_iff.symm

theorem EpsilonFree.noEmptyBody (free : g.EpsilonFree) : g.NoEmptyBody := fun a p hp =>
  (free a p hp).1

def UnitStep (g : Grammar) (a b : Char) : Prop :=
  [.nonTerminal b] ∈ g.alternatives a

instance (g : Grammar) : DecidableRel g.UnitStep := fun a b =>
  inferInstanceAs (Decidable ([.nonTerminal b] ∈ g.alternatives a))

def NoUnitCycle (g : Grammar) : Prop :=
  ∀ a, ¬Relation.TransGen g.UnitStep a a

theorem transGen_unitStep_iff_walk :
    Relation.TransGen g.UnitStep a b ↔ Walk g.UnitStep g.nonTerminals a b :=
  transGen_iff_walk_of_source fun _ _ s => mem_of_mem_alternatives s

instance (g : Grammar) : Decidable g.NoUnitCycle :=
  have := List.decidableBAll (fun a => ¬Walk g.UnitStep g.nonTerminals a a) g.nonTerminals
  decidable_of_iff (∀ a ∈ g.nonTerminals, ¬Walk g.UnitStep g.nonTerminals a a) <| by
    simp only [NoUnitCycle, transGen_unitStep_iff_walk]
    refine forall_congr' fun a => ⟨fun acyclic w => ?_, fun acyclic _ => acyclic⟩
    obtain ⟨_, s, _⟩ := Relation.TransGen.head'_iff.1 (transGen_unitStep_iff_walk.2 w)
    exact acyclic (mem_of_mem_alternatives s) w

/-- In a grammar that declares the helper names it uses every symbol but a sign of the empty word is
visible. -/
theorem HelperNamesDeclared.visible (declared : g.HelperNamesDeclared)
    (hp : p ∈ g.alternatives a) (hs : s ∈ p) (sign : s ≠ .epsilon) : g.Visible s := by
  refine ⟨sign, ?_⟩
  rintro c hc rfl
  exact declared.not_mentions_of_mem_freeHelperNames hc (.intro hp hs)

/-- What the grammar `h` looks like on the way from `g` to its elimination. -/
structure Shape (g h : Grammar) : Prop where
  names : g.nonTerminals <+: h.nonTerminals
  added : ∀ c ∈ h, c ∉ g → c ∈ helperNames
  declared : h.HelperNamesDeclared
  head : ∀ a ∈ g, ∀ p ∈ h.alternatives a, ∃ s q, p = s :: q ∧ g.Visible s
  unit : ∀ a ∈ g, ∀ p ∈ h.alternatives a, ∀ b, g.core p = [.nonTerminal b] →
    Relation.TransGen g.UnitStep a b
  helper : ∀ c ∈ h, c ∉ g → ∀ p ∈ h.alternatives c, p = Body.epsilon ∨
    ∃ q, p = q ++ [.nonTerminal c] ∧ g.core q ≠ [] ∧
      ∀ d ∈ helperNames, .nonTerminal d ∈ q → h.Older d c

namespace Shape

theorem start (free : g.EpsilonFree) (declared : g.HelperNamesDeclared) : Shape g g where
  names := List.prefix_rfl
  added c hc new := absurd hc new
  declared := declared
  head a _ p hp := by
    obtain ⟨nonempty, noSign⟩ := free a p hp
    cases p with
    | nil => exact absurd rfl nonempty
    | cons s q =>
      have hs : s ∈ s :: q := List.mem_cons_self ..
      exact ⟨s, q, rfl, declared.visible hp hs fun same => noSign (same ▸ hs)⟩
  unit a _ p hp b alone := by
    have visible : ∀ s ∈ p, g.Visible s := fun s hs =>
      declared.visible hp hs fun same => (free a p hp).2 (same ▸ hs)
    rw [core_eq_self visible] at alone
    rw [alone] at hp
    exact .single hp
  helper c hc new := absurd hc new

theorem mem (shape : Shape g h) (ha : a ∈ g) : a ∈ h :=
  shape.names.subset ha

theorem mem_freeHelperNames (shape : Shape g h) (hc : c ∈ h) (new : c ∉ g) :
    c ∈ g.freeHelperNames :=
  Grammar.mem_freeHelperNames.2 ⟨shape.added c hc new, new⟩

theorem core_ne_nil (shape : Shape g h) (ha : a ∈ g) (hp : p ∈ h.alternatives a) :
    g.core p ≠ [] := by
  obtain ⟨s, q, rfl, visible⟩ := shape.head a ha p hp
  exact core_ne_nil_iff.2 ⟨s, List.mem_cons_self .., visible⟩

theorem substitute (shape : Shape g h) (ha : a ∈ g) (hb : b ∈ g) (distinct : b ≠ a) :
    Shape g (h.substitute a b) where
  names := by
    rw [nonTerminals_substitute (shape.mem ha)]
    exact shape.names
  added c hc new := by
    rw [mem_iff, nonTerminals_substitute (shape.mem ha)] at hc
    exact shape.added c hc new
  declared := shape.declared.step (.substitute ha hb distinct (shape.mem ha))
  head c hc p hp := by
    rcases mem_alternatives_substitute.1 hp with ⟨hp, _⟩ | ⟨rfl, q, _, d, hd, rfl⟩
    · exact shape.head c hc p hp
    · obtain ⟨s, r, rfl, visible⟩ := shape.head b hb d hd
      exact ⟨s, r ++ q, rfl, visible⟩
  unit c hc p hp x alone := by
    rcases mem_alternatives_substitute.1 hp with ⟨hp, _⟩ | ⟨rfl, q, hq, d, hd, rfl⟩
    · exact shape.unit c hc p hp x alone
    · rw [core_append] at alone
      -- The core of `d` is not empty, so what followed the leading `b` has none.
      rcases List.append_eq_singleton_iff.1 alone with ⟨none, _⟩ | ⟨first, rest⟩
      · exact absurd none (shape.core_ne_nil hb hd)
      · have toB : g.core (.nonTerminal b :: q) = [.nonTerminal b] := by
          rw [core_cons_of_visible (visible_of_mem hb), rest]
        exact (shape.unit c hc _ hq b toB).trans (shape.unit b hb d hd x first)
  helper c hc new p hp := by
    have other : c ≠ a := by rintro rfl; exact new ha
    rw [alternatives_substitute, if_neg other] at hp
    have same := nonTerminals_substitute (shape.mem ha) b
    rw [mem_iff, same] at hc
    have older {d : Char} : (h.substitute a b).Older d c ↔ h.Older d c := by
      rw [Older, Older, same]
    simpa only [older] using shape.helper c hc new p hp

theorem splitInto (shape : Shape g h) (acyclic : g.NoUnitCycle) (ha : a ∈ g)
    (loops : h.recursive a ≠ []) (fresh : h.freshName = .ok helper) :
    Shape g (h.splitInto a helper) := by
  have hh := shape.mem ha
  have absent := not_mem_of_freshName fresh
  have s : Step g.nonTerminals h (h.splitInto a helper) := .split ha hh loops fresh
  have named := nonTerminals_splitInto hh absent
  have pool : helper ∈ g.freeHelperNames := Grammar.mem_freeHelperNames.2
    ⟨mem_helperNames_of_freshName fresh, fun hg => absent (shape.mem hg)⟩
  have cases_of_mem {c : Char} : c ∈ h.splitInto a helper → c ∈ h ∨ c = helper :=
    (mem_splitInto hh absent).1
  -- A name of the input keeps its alternatives, unless the helper has come behind them.
  have old {c : Char} {p : Body} (hc : c ∈ g)
      (hp : p ∈ (h.splitInto a helper).alternatives c) : p ∈ h.alternatives c ∨
        c = a ∧ ∃ q ∈ h.alternatives a, p = q ++ [.nonTerminal helper] := by
    rcases (mem_alternatives_splitInto hh absent).1 hp with
      ⟨rfl, _⟩ | ⟨rfl, q, hq, _, rfl⟩ | ⟨_, _, hp⟩
    · exact absurd (shape.mem hc) absent
    · exact .inr ⟨rfl, q, hq, rfl⟩
    · exact .inl hp
  refine ⟨shape.names.trans s.nonTerminals_prefix, ?_, shape.declared.step s, ?_, ?_, ?_⟩
  · intro c hc new
    rcases cases_of_mem hc with hc | rfl
    · exact shape.added c hc new
    · exact mem_helperNames_of_freshName fresh
  · intro c hc p hp
    rcases old hc hp with hp | ⟨rfl, q, hq, rfl⟩
    · exact shape.head c hc p hp
    · obtain ⟨s, r, rfl, visible⟩ := shape.head c hc q hq
      exact ⟨s, r ++ [.nonTerminal helper], rfl, visible⟩
  · intro c hc p hp x alone
    rcases old hc hp with hp | ⟨rfl, q, hq, rfl⟩
    · exact shape.unit c hc p hp x alone
    · rw [core_concat_helper pool] at alone
      exact shape.unit c hc q hq x alone
  · intro c hc new p hp
    rcases (mem_alternatives_splitInto hh absent).1 hp with
      ⟨rfl, ⟨q, hq, rfl⟩ | rfl⟩ | ⟨rfl, _⟩ | ⟨same, _, hp⟩
    · refine .inr ⟨q, rfl, fun none => acyclic a ?_, fun d hd used => ?_⟩
      · apply shape.unit a ha _ hq a
        rw [core_cons_of_visible (visible_of_mem ha), none]
      · have declared := shape.declared d hd (.intro hq (List.mem_cons_of_mem _ used))
        rw [Older, named, List.idxOf_append_of_mem declared,
          List.idxOf_append_of_notMem absent, List.idxOf_cons_self, Nat.add_zero]
        exact List.idxOf_lt_length_iff.2 declared
    · exact .inl rfl
    · exact absurd ha new
    · have hc := (cases_of_mem hc).resolve_right same
      rcases shape.helper c hc new p hp with rfl | ⟨q, rfl, core, older⟩
      · exact .inl rfl
      · exact .inr ⟨q, rfl, core, fun d hd used => (older d hd used).step s hc⟩

theorem step (acyclic : g.NoUnitCycle) (s : Step g.nonTerminals h k) (shape : Shape g h) :
    Shape g k := by
  cases s with
  | substitute ha hb distinct _ => exact shape.substitute ha hb distinct
  | split ha _ loops fresh => exact shape.splitInto acyclic ha loops fresh

end Shape

theorem eliminate_shape (free : g.EpsilonFree) (acyclic : g.NoUnitCycle)
    (declared : g.HelperNamesDeclared) (e : g.eliminate = .ok h) : Shape g h :=
  eliminate_induction e (.start free declared) fun s shape => shape.step acyclic s

end Grammar

end LeftRecursion
