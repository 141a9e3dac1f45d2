import LeftRecursion.Proofs.Elimination.HelperNames
import LeftRecursion.Proofs.Elimination.LeadingGraph
import Mathlib.Data.List.Induction

/-!
# The stages of an elimination

The central invariant says what the grammar looks like when some of the names have been treated.
A treated name leads exactly to the names that the input can reach from it through names treated
before it, and to none of those nor to itself; the names to come are as they were. Hence a name has
to be split exactly if it returns to itself early in the leading graph of the input, and the splits
use up the free helper names one by one.
-/

namespace LeftRecursion

namespace Grammar

variable {g h k : Grammar} {earlier remaining : List Char} {a b c helper : Char}

def returning (g : Grammar) (names : List Char) : Nat :=
  names.countP (g.ReturnsEarly ·)

theorem returning_concat_of_returnsEarly (earlier : List Char) (returns : g.ReturnsEarly a) :
    g.returning (earlier ++ [a]) = g.returning earlier + 1 := by
  simp [returning, returns]

theorem returning_concat_of_not (earlier : List Char) (settled : ¬g.ReturnsEarly a) :
    g.returning (earlier ++ [a]) = g.returning earlier := by
  simp [returning, settled]

/-- A member of a list to which `a` was added is `a`, or it was there before. -/
theorem eq_or_split_of_concat {l r : List Char} (split : earlier ++ [a] = l ++ b :: r) :
    earlier = l ∧ a = b ∨ ∃ r', earlier = l ++ b :: r' := by
  rcases List.eq_nil_or_concat r with rfl | ⟨r, last, rfl⟩
  · obtain ⟨rfl, same⟩ := List.append_inj' split rfl
    exact .inl ⟨rfl, List.singleton_inj.1 same⟩
  · have parts : earlier ++ [a] = (l ++ b :: r) ++ [last] := by
      simpa using split
    exact .inr ⟨r, (List.append_inj' parts rfl).1⟩

/-- What has become of `g` when the names `earlier` have been treated. -/
structure Stage (g : Grammar) (earlier : List Char) (h : Grammar) : Prop where
  names : h.nonTerminals = g.nonTerminals ++ g.freeHelperNames.take (g.returning earlier)
  enough : g.returning earlier ≤ g.freeHelperNames.length
  nonempty : h.NoEmptyBody
  pending : ∀ b ∈ g, b ∉ earlier → h.alternatives b = g.alternatives b
  leading : ∀ {l r b}, earlier = l ++ b :: r →
    ∀ {c}, h.LeadsAtOnce b c ↔ c ∉ l ++ [b] ∧ Walk g.LeadsAtOnce l b c

namespace Stage

theorem start (nonempty : g.NoEmptyBody) : Stage g [] g where
  names := by simp [returning]
  enough := Nat.zero_le _
  nonempty := nonempty
  pending _ _ _ := rfl
  leading := by simp

theorem mem (s : Stage g earlier h) (ha : a ∈ g) : a ∈ h := by
  rw [mem_iff, s.names]
  exact List.mem_append_left _ ha

/-- To treat `a` is to give it its new leads and to leave all other names of the input alone. -/
theorem extend (s : Stage g earlier h) (order : g.nonTerminals = earlier ++ a :: remaining)
    (names : k.nonTerminals =
      g.nonTerminals ++ g.freeHelperNames.take (g.returning (earlier ++ [a])))
    (enough : g.returning (earlier ++ [a]) ≤ g.freeHelperNames.length)
    (nonempty : k.NoEmptyBody)
    (others : ∀ b ∈ g, b ≠ a → k.alternatives b = h.alternatives b)
    (leads : ∀ {c}, k.LeadsAtOnce a c ↔ c ∉ earlier ++ [a] ∧ Walk g.LeadsAtOnce earlier a c) :
    Stage g (earlier ++ [a]) k where
  names := names
  enough := enough
  nonempty := nonempty
  pending b hb new := by
    rw [List.mem_append, List.mem_singleton, not_or] at new
    rw [others b hb new.2, s.pending b hb new.1]
  leading := by
    intro l r b split c
    rcases eq_or_split_of_concat split with ⟨rfl, rfl⟩ | ⟨r, rfl⟩
    · exact leads
    · have hb : b ∈ l ++ b :: r := by simp
      have declared : b ∈ g := by
        rw [mem_iff, order]
        exact List.mem_append_left _ hb
      rw [leadsAtOnce_congr (others b declared (ne_of_mem_before order hb))]
      exact s.leading rfl

section Turn

variable (s : Stage g earlier h) (order : g.nonTerminals = earlier ++ a :: remaining)

include s order

theorem steps_exposed (l : List Char) (hl : ∀ b ∈ l, b ∈ earlier) :
    Relation.ReflTransGen (Step g.nonTerminals) h (h.expose a l) := by
  have ha := mem_of_order order
  refine steps_expose ha (s.mem ha) l fun b hb => ⟨?_, ne_of_mem_before order (hl b hb)⟩
  rw [order]
  exact List.mem_append_left _ (hl b hb)

/-- After the substitution of some of the earlier names, `a` leads where the input leads it through
these. -/
theorem leadsAtOnce_exposed {l r : List Char} (split : earlier = l ++ r) :
    (h.expose a l).LeadsAtOnce a c ↔ c ∉ l ∧ Walk g.LeadsAtOnce l a c := by
  -- The columns come in the order of the grammar, so the last one was treated through all others.
  induction l using List.reverseRecOn generalizing r c with
  | nil =>
    have ha := mem_of_order order
    have untouched := s.pending a ha fun here => ne_of_mem_before order here rfl
    rw [expose_nil, leadsAtOnce_congr untouched, walk_nil]
    simp
  | append_singleton l b ih =>
    have split' : earlier = l ++ b :: r := by simpa using split
    have hb : b ∈ earlier := by rw [split']; simp
    have order' : g.nonTerminals = l ++ b :: (r ++ a :: remaining) := by
      rw [order, split', List.append_assoc, List.cons_append]
    have first : b ∉ l := fun hbl => ne_of_mem_before order' hbl rfl
    have nonempty := s.nonempty.steps (s.steps_exposed order l (by simp_all))
    have along (d : Char) : (h.expose a l).LeadsAtOnce a d ↔
        d ∉ l ∧ Walk g.LeadsAtOnce l a d := ih split'
    have same : ∀ x, x ∈ l ++ [b] ↔ x ∈ b :: l := by simp [or_comm]
    rw [expose_concat, leadsAtOnce_substitute nonempty, along, along,
      leadsAtOnce_congr (alternatives_expose_of_ne (ne_of_mem_before order hb) l),
      s.leading split', walk_congr same, walk_cons, List.mem_append, List.mem_singleton]
    tauto

theorem leadsAtOnce_self_iff :
    (h.expose a earlier).LeadsAtOnce a a ↔ g.ReturnsEarly a := by
  rw [s.leadsAtOnce_exposed order (List.append_nil earlier).symm, returnsEarly_iff_walk order]
  exact and_iff_right fun ha => ne_of_mem_before order ha rfl

theorem nonTerminals_exposed :
    (h.expose a earlier).nonTerminals = h.nonTerminals :=
  nonTerminals_expose (s.mem (mem_of_order order)) earlier

/-- A name that does not return early is left as the substitutions made it. -/
theorem keep (settled : ¬g.ReturnsEarly a) :
    Stage g (earlier ++ [a]) (h.expose a earlier) := by
  have same := returning_concat_of_not earlier settled
  have exposed := s.steps_exposed order earlier fun _ hb => hb
  refine s.extend order ?_ ?_ (s.nonempty.steps exposed) ?_ ?_
  · rw [s.nonTerminals_exposed order, same, s.names]
  · rw [same]
    exact s.enough
  · exact fun b _ distinct => alternatives_expose_of_ne distinct earlier
  · intro c
    have noLoop := (s.leadsAtOnce_self_iff order).not.2 settled
    rw [List.mem_append, List.mem_singleton, not_or, and_assoc, and_left_comm,
      ← s.leadsAtOnce_exposed order (List.append_nil earlier).symm]
    refine (and_iff_right_of_imp ?_).symm
    rintro leads rfl
    exact noLoop leads

/-- A name that returns early is split, and the helper takes the next free name. -/
theorem splitInto (returns : g.ReturnsEarly a)
    (next : g.freeHelperNames[g.returning earlier]? = some helper) :
    Stage g (earlier ++ [a]) ((h.expose a earlier).splitInto a helper) := by
  have more := returning_concat_of_returnsEarly earlier returns
  have exposed := s.steps_exposed order earlier fun _ hb => hb
  have nonempty := s.nonempty.steps exposed
  have named := s.nonTerminals_exposed order
  have fresh : (h.expose a earlier).freshName = .ok helper := by
    rw [freshName_eq (named.trans s.names), next]
  have absent := not_mem_of_freshName fresh
  have hg := mem_of_order order
  have ha := steps_mem exposed (s.mem hg)
  have loops := recursive_eq_nil_iff.not.2 (not_not.2 ((s.leadsAtOnce_self_iff order).2 returns))
  obtain ⟨room, here⟩ := List.getElem?_eq_some_iff.1 next
  refine s.extend order ?_ ?_ (nonempty.step (.split hg ha loops fresh)) ?_ ?_
  · rw [nonTerminals_splitInto ha absent, named, s.names, more, List.append_assoc,
      ← here, List.take_append_getElem room]
  · rw [more]
    exact room
  · intro b hb distinct
    have notHelper : b ≠ helper := by
      rintro rfl
      exact absent (steps_mem exposed (s.mem hb))
    rw [alternatives_splitInto_of_ne ha absent distinct notHelper,
      alternatives_expose_of_ne distinct]
  · intro c
    rw [leadsAtOnce_splitInto ha absent nonempty,
      s.leadsAtOnce_exposed order (List.append_nil earlier).symm, List.mem_append,
      List.mem_singleton]
    tauto

/-- Treating one more name goes on to the next stage, unless all helper names have been given
out and the name has to be split. -/
theorem turn :
    (∃ k, ((h.expose a earlier).split a).result = .ok k ∧
        Stage g (earlier ++ [a]) k) ∨
      g.freeHelperNames.length < g.returning (earlier ++ [a]) ∧
        ((h.expose a earlier).split a).result = .error .namesExhausted := by
  rw [result_split]
  by_cases returns : g.ReturnsEarly a
  · have loops := recursive_eq_nil_iff.not.2 (not_not.2 ((s.leadsAtOnce_self_iff order).2 returns))
    rw [if_neg loops, freshName_eq ((s.nonTerminals_exposed order).trans s.names)]
    cases next : g.freeHelperNames[g.returning earlier]? with
    | some helper => exact .inl ⟨_, rfl, s.splitInto order returns next⟩
    | none =>
      refine .inr ⟨?_, rfl⟩
      rw [returning_concat_of_returnsEarly earlier returns]
      exact Nat.lt_succ_of_le (List.getElem?_eq_none_iff.1 next)
  · have done := recursive_eq_nil_iff.2 ((s.leadsAtOnce_self_iff order).not.2 returns)
    rw [if_pos done]
    exact .inl ⟨_, rfl, s.keep order returns⟩

end Turn

/-- From any stage on, elimination reaches the last one or runs out of helper names. -/
theorem run (s : Stage g earlier h) (order : g.nonTerminals = earlier ++ remaining) :
    (∃ k, (h.eliminateFrom earlier remaining).result = .ok k ∧ Stage g g.nonTerminals k) ∨
      g.freeHelperNames.length < g.returning g.nonTerminals ∧
        (h.eliminateFrom earlier remaining).result = .error .namesExhausted := by
  induction remaining generalizing earlier h with
  | nil =>
    rw [List.append_nil] at order
    exact .inl ⟨h, rfl, order ▸ s⟩
  | cons a remaining ih =>
    rw [result_eliminateFrom_cons]
    have order' : g.nonTerminals = (earlier ++ [a]) ++ remaining := by simpa using order
    rcases s.turn order with ⟨k, done, s'⟩ | ⟨few, failed⟩
    · rw [done]
      exact ih s' order'
    · rw [failed]
      refine .inr ⟨Nat.lt_of_lt_of_le few ?_, rfl⟩
      rw [order']
      exact (List.sublist_append_left _ remaining).countP_le

end Stage

theorem Stage.older (s : Stage g g.nonTerminals h) (ha : a ∈ g)
    (leads : h.LeadsAtOnce a b) : g.Older a b := by
  obtain ⟨l, r, order⟩ := List.append_of_mem ha
  exact (older_iff_not_mem order).2 ((s.leading order).1 leads).1

theorem eliminate_stage (nonempty : g.NoEmptyBody) :
    (∃ h, g.eliminate = .ok h ∧ Stage g g.nonTerminals h) ∨
      g.freeHelperNames.length < g.returning g.nonTerminals ∧
        g.eliminate = .error .namesExhausted :=
  (Stage.start nonempty).run (List.nil_append _).symm

theorem stage_of_eliminate (nonempty : g.NoEmptyBody) (e : g.eliminate = .ok h) :
    Stage g g.nonTerminals h := by
  rcases eliminate_stage nonempty with ⟨k, done, s⟩ | ⟨_, failed⟩
  · cases done.symm.trans e
    exact s
  · cases failed.symm.trans e

/-- Elimination fails exactly if more names return to themselves early than there are free helper
names. Otherwise each such name adds one helper, and the helpers take the free names in order. -/
theorem namesExhausted_iff_and_nonTerminals_eliminate (nonempty : g.NoEmptyBody) :
    (g.eliminate = .error .namesExhausted ↔
      g.freeHelperNames.length < g.returning g.nonTerminals) ∧
    (g.returning g.nonTerminals ≤ g.freeHelperNames.length →
      ∃ h, g.eliminate = .ok h ∧
        h.nonTerminals =
          g.nonTerminals ++ g.freeHelperNames.take (g.returning g.nonTerminals) ∧
        h.nonTerminals.length = g.nonTerminals.length + g.returning g.nonTerminals) := by
  rcases eliminate_stage nonempty with ⟨h, done, s⟩ | ⟨few, failed⟩
  · refine ⟨⟨fun failed => ?_, fun few => absurd s.enough (Nat.not_le_of_gt few)⟩, fun enough => ?_⟩
    · rw [done] at failed
      cases failed
    · refine ⟨h, done, s.names, ?_⟩
      rw [s.names, List.length_append, List.length_take_of_le enough]
  · exact ⟨⟨fun _ => few, fun _ => failed⟩, fun enough => absurd enough (Nat.not_le_of_gt few)⟩

theorem namesExhausted_iff_and_nonTerminals_eliminate_crossed :
    crossed.NoEmptyBody ∧ crossed.returning crossed.nonTerminals = 2 ∧
      ∃ h, crossed.eliminate = .ok h ∧
        h.nonTerminals =
          crossed.nonTerminals ++ crossed.freeHelperNames.take
            (crossed.returning crossed.nonTerminals) ∧
        h.nonTerminals.length =
          crossed.nonTerminals.length + crossed.returning crossed.nonTerminals :=
  ⟨by decide, by decide,
    (namesExhausted_iff_and_nonTerminals_eliminate (by decide)).2 (by decide)⟩

end Grammar

end LeftRecursion
