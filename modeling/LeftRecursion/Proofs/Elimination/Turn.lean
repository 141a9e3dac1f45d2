import LeftRecursion.Proofs.Elimination.Step

/-!
# The turn of a name

A run of the elimination can be cut at any name. When its turn comes the name has the alternatives
of the input still, and those in front have the alternatives of the result already; what comes after
its turn leaves it alone (`exists_turn`).
-/

namespace LeftRecursion

namespace Grammar

variable {g h k l : Grammar} {earlier remaining : List Char} {a b c d : Char}

theorem mem_turn {bs : List Char} (hc : c ∈ k)
    (done : ((k.expose c bs).split c).result = .ok h) (hd : d ∈ k) : d ∈ h := by
  have hd' : d ∈ k.expose c bs := (mem_expose hc bs).2 hd
  rcases split_cases done with ⟨_, rfl⟩ | ⟨_, helper, fresh, rfl⟩
  · exact hd'
  · exact (mem_splitInto ((mem_expose hc bs).2 hc) (not_mem_of_freshName fresh)).2 (.inl hd')

theorem mem_of_eliminateFrom (declared : ∀ c ∈ remaining, c ∈ k) (hd : d ∈ k)
    (e : (k.eliminateFrom earlier remaining).result = .ok h) : d ∈ h := by
  induction remaining generalizing k earlier with
  | nil => cases e; exact hd
  | cons a remaining ih =>
    obtain ⟨ha, declared⟩ := List.forall_mem_cons.1 declared
    obtain ⟨l, turn, e⟩ := exists_turn_of_eliminateFrom e
    exact ih (fun c hc => mem_turn ha turn (declared c hc)) (mem_turn ha turn hd) e

/-- Nothing happens to a name that does not get a turn. -/
theorem alternatives_eliminateFrom_of_not_mem (declared : ∀ c ∈ remaining, c ∈ k) (hd : d ∈ k)
    (absent : d ∉ remaining) (e : (k.eliminateFrom earlier remaining).result = .ok h) :
    h.alternatives d = k.alternatives d := by
  induction remaining generalizing k earlier with
  | nil => cases e; rfl
  | cons a remaining ih =>
    obtain ⟨ha, declared⟩ := List.forall_mem_cons.1 declared
    rw [List.mem_cons, not_or] at absent
    obtain ⟨l, turn, e⟩ := exists_turn_of_eliminateFrom e
    rw [ih (fun c hc => mem_turn ha turn (declared c hc)) (mem_turn ha turn hd) absent.2 e]
    exact alternatives_turn_of_ne ha turn hd absent.1

theorem eliminateFrom_append (k : Grammar) (earlier before behind : List Char) :
    k.eliminateFrom earlier (before ++ behind) =
      k.eliminateFrom earlier before >>= fun l => l.eliminateFrom (earlier ++ before) behind := by
  induction before generalizing k earlier with
  | nil => rw [List.nil_append, List.append_nil, eliminateFrom, pure_bind]
  | cons c before ih =>
    simp only [List.cons_append, eliminateFrom, bind_assoc, ih, List.append_assoc,
      List.nil_append]

theorem mem_events_split {helper : Char} (loops : k.recursive a ≠ [])
    (fresh : k.freshName = .ok helper) :
    .split a helper (k.recursive a).length (k.others a).length ∈ (k.split a).events := by
  rw [split, if_neg loops, fresh]
  exact List.mem_cons_self ..

def treat (k : Grammar) (earlier : List Char) (a : Char) : Traced Grammar := do
  (← k.substituteAll a earlier).split a

theorem result_treat (k : Grammar) (earlier : List Char) (a : Char) :
    (k.treat earlier a).result = ((k.expose a earlier).split a).result := by
  rw [treat, Traced.result_bind, result_substituteAll]
  rfl

theorem events_treat (k : Grammar) (earlier : List Char) (a : Char) :
    (k.treat earlier a).events =
      (k.substituteAll a earlier).events ++ ((k.expose a earlier).split a).events :=
  Traced.events_bind_of_ok (result_substituteAll k a earlier) _

theorem eliminateFrom_cons (k : Grammar) (earlier : List Char) (a : Char) (remaining : List Char) :
    k.eliminateFrom earlier (a :: remaining) =
      k.treat earlier a >>= fun l => l.eliminateFrom (earlier ++ [a]) remaining := by
  rw [eliminateFrom, treat, bind_assoc]

/-- In the elimination that leads from `g` to `h`, the turn of `a` leads from `k` to `l`. -/
structure Cut (g h : Grammar) (earlier : List Char) (a : Char) (remaining : List Char)
    (k l : Grammar) : Prop where
  before : (g.eliminateFrom [] earlier).result = .ok k
  treated : (k.treat earlier a).result = .ok l
  after : (l.eliminateFrom (earlier ++ [a]) remaining).result = .ok h

theorem eliminateTraced_eq (order : g.nonTerminals = earlier ++ remaining) :
    g.eliminateTraced =
      g.eliminateFrom [] earlier >>= fun k => k.eliminateFrom earlier remaining := by
  rw [eliminateTraced, order, eliminateFrom_append]
  rfl

theorem exists_cut (e : g.eliminate = .ok h) (order : g.nonTerminals = earlier ++ a :: remaining) :
    ∃ k l, Cut g h earlier a remaining k l := by
  rw [eliminate, eliminateTraced_eq order, Traced.result_bind] at e
  obtain ⟨k, before, rest⟩ := exists_of_bind_eq_ok e
  obtain ⟨l, turn, after⟩ := exists_turn_of_eliminateFrom rest
  exact ⟨k, l, before, (result_treat k earlier a).trans turn, after⟩

/-- In the elimination that leads from `g` to `h`, the grammar is `k` when the turn of `a` comes,
and it is `l` afterwards. -/
structure Turn (g h : Grammar) (earlier : List Char) (a : Char) (k l : Grammar) : Prop where
  declared : ∀ c ∈ g, c ∈ k
  pending : ∀ c ∈ g, c ∉ earlier → k.alternatives c = g.alternatives c
  done : ((k.expose a earlier).split a).result = .ok l
  settled : ∀ c ∈ l, (c ∈ g → c ∈ earlier ++ [a]) → h.alternatives c = l.alternatives c
  reported : ∀ event ∈ ((k.expose a earlier).split a).events, event ∈ g.eliminateTraced.events

namespace Cut

variable (cut : Cut g h earlier a remaining k l)
  (order : g.nonTerminals = earlier ++ a :: remaining)

include cut order

/-- The events of a run are those before the turn, those of the turn and those after it. -/
theorem events_eq : g.eliminateTraced.events =
    (g.eliminateFrom [] earlier).events ++ ((k.treat earlier a).events ++
      (l.eliminateFrom (earlier ++ [a]) remaining).events) := by
  rw [eliminateTraced_eq order, Traced.events_bind_of_ok cut.before, eliminateFrom_cons,
    Traced.events_bind_of_ok cut.treated]

theorem turn : Turn g h earlier a k l := by
  have names (c : Char) : c ∈ g ↔ c ∈ earlier ∨ c ∈ a :: remaining := by
    rw [mem_iff, order, List.mem_append]
  have done : ((k.expose a earlier).split a).result = .ok l :=
    (result_treat k earlier a).symm.trans cut.treated
  have front : ∀ c ∈ earlier, c ∈ g := fun c hc => (names c).2 (.inl hc)
  have declared : ∀ c ∈ g, c ∈ k := fun c hc => mem_of_eliminateFrom front hc cut.before
  have behind : ∀ c ∈ remaining, c ∈ l := fun c hc =>
    mem_turn (declared a (mem_of_order order)) done
      (declared c ((names c).2 (.inr (List.mem_cons_of_mem _ hc))))
  refine ⟨declared, ?_, done, ?_, ?_⟩
  · exact fun c hc absent => alternatives_eliminateFrom_of_not_mem front hc absent cut.before
  · intro c hc finished
    refine alternatives_eliminateFrom_of_not_mem behind hc (fun here => ?_) cut.after
    have nodup := g.nodup_nonTerminals
    rw [order, ← List.singleton_append, ← List.append_assoc] at nodup
    have hg : c ∈ g := (names c).2 (.inr (List.mem_cons_of_mem _ here))
    exact (List.nodup_append.1 nodup).2.2 c (finished hg) c here rfl
  · intro event reported
    rw [cut.events_eq order, events_treat]
    exact List.mem_append_right _ (List.mem_append_left _ (List.mem_append_right _ reported))

end Cut

theorem exists_turn (e : g.eliminate = .ok h) (order : g.nonTerminals = earlier ++ a :: remaining) :
    ∃ k l, Turn g h earlier a k l := by
  obtain ⟨k, l, cut⟩ := exists_cut e order
  exact ⟨k, l, cut.turn order⟩

namespace Turn

variable (t : Turn g h earlier a k l) (order : g.nonTerminals = earlier ++ a :: remaining)

include t order

theorem mem : a ∈ k :=
  t.declared a (mem_of_order order)

theorem mem_exposed : a ∈ k.expose a earlier :=
  (mem_expose (t.mem order) earlier).2 (t.mem order)

/-- When its turn comes, a name has the alternatives that it had at the start. -/
theorem alternatives_self : k.alternatives a = g.alternatives a :=
  t.pending a (mem_of_order order) fun ha => ne_of_mem_before order ha rfl

/-- After its turn, a name has the alternatives that it has in the end. -/
theorem alternatives_settled : h.alternatives a = l.alternatives a :=
  t.settled a (mem_turn (t.mem order) t.done (t.mem order)) fun _ => by simp

/-- The names in front have their last alternatives by then. -/
theorem alternatives_of_mem_earlier (hb : b ∈ earlier) : h.alternatives b = k.alternatives b := by
  have hg : b ∈ g := by
    rw [mem_iff, order]
    exact List.mem_append_left _ hb
  have hk := t.declared b hg
  rw [t.settled b (mem_turn (t.mem order) t.done hk) fun _ => List.mem_append_left _ hb]
  exact alternatives_turn_of_ne (t.mem order) t.done hk (ne_of_mem_before order hb)

end Turn

end Grammar

end LeftRecursion
