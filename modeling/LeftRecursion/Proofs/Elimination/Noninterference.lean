import LeftRecursion.Proofs.Elimination.Account

/-!
# Later names have no influence

When a name has its turn, the elimination reads nothing of the names behind it. Two grammars that
differ in the names behind some point alone are treated alike up to there: both runs report the same
events and fail alike, and they name the same helpers (`sameRun_eliminateFrom`). What comes
afterwards changes neither the names in front nor their helpers.
-/

namespace LeftRecursion

namespace Grammar

open Event

variable {g g' h h' k k' : Grammar} {hidden front behind earlier remaining : List Char}
  {a b c helper : Char} {x x' : Traced Grammar}

/-- The grammars have the same names in the same order, and the names that are not in `hidden` have
the same alternatives in both. -/
structure SameOutside (hidden : List Char) (k k' : Grammar) : Prop where
  nonTerminals : k.nonTerminals = k'.nonTerminals
  alternatives : ∀ a, a ∉ hidden → k.alternatives a = k'.alternatives a

/-- A name that is not declared has no alternatives, so only the declared ones count. -/
theorem sameOutside_of_order (order : g.nonTerminals = front ++ behind)
    (names : g'.nonTerminals = g.nonTerminals)
    (agree : ∀ a ∈ front, g.alternatives a = g'.alternatives a) : SameOutside behind g g' where
  nonTerminals := names.symm
  alternatives a visible := by
    by_cases ha : a ∈ front
    · exact agree a ha
    have absent : a ∉ g := by
      rw [mem_iff, order, List.mem_append, not_or]
      exact ⟨ha, visible⟩
    have absent' : a ∉ g' := by
      rw [mem_iff, names]
      exact absent
    rw [alternatives_of_not_mem absent, alternatives_of_not_mem absent']

namespace SameOutside

variable (same : SameOutside hidden k k')

include same

theorem mem_iff : c ∈ k ↔ c ∈ k' := by
  rw [Grammar.mem_iff, same.nonTerminals, Grammar.mem_iff]

theorem freshName_eq : k.freshName = k'.freshName := by
  simp only [freshName, same.mem_iff]

theorem recursive_eq (visible : a ∉ hidden) : k.recursive a = k'.recursive a := by
  rw [recursive, same.alternatives a visible, recursive]

theorem others_eq (visible : a ∉ hidden) : k.others a = k'.others a := by
  rw [others, same.alternatives a visible, others]

/-- The same change keeps the grammars the same, whichever name it is made to. -/
theorem modify (a : Char) (f : List Body → List Body) :
    SameOutside hidden (k.modify a f) (k'.modify a f) where
  nonTerminals := by
    simp only [nonTerminals_modify, same.mem_iff, same.nonTerminals]
  alternatives c visible := by
    by_cases here : c = a
    · subst here
      rw [alternatives_modify_self, alternatives_modify_self, same.alternatives c visible]
    · rw [alternatives_modify_of_ne here, alternatives_modify_of_ne here,
        same.alternatives c visible]

theorem substitute (ha : a ∉ hidden) (hb : b ∉ hidden) :
    SameOutside hidden (k.substitute a b) (k'.substitute a b) := by
  rw [Grammar.substitute, Grammar.substitute, same.alternatives a ha, same.alternatives b hb]
  exact same.modify a _

theorem splitInto (ha : a ∉ hidden) (helper : Char) :
    SameOutside hidden (k.splitInto a helper) (k'.splitInto a helper) := by
  rw [Grammar.splitInto, Grammar.splitInto, same.others_eq ha, same.recursive_eq ha]
  exact (same.modify a _).modify helper _

end SameOutside

/-- The runs report the same events, and they fail alike or lead to grammars that differ in names of
`hidden` alone. -/
inductive SameRun (hidden : List Char) : Traced Grammar → Traced Grammar → Prop
  | ok (events : List Event) {k k' : Grammar} : SameOutside hidden k k' →
      SameRun hidden ⟨events, .ok k⟩ ⟨events, .ok k'⟩
  | error (events : List Event) (e : Failure) :
      SameRun hidden ⟨events, .error e⟩ ⟨events, .error e⟩

namespace SameRun

theorem events_eq (same : SameRun hidden x x') : x.events = x'.events := by
  cases same <;> rfl

theorem sameOutside (same : SameRun hidden x x') (done : x.result = .ok k)
    (done' : x'.result = .ok k') : SameOutside hidden k k' := by
  cases same with
  | ok events same =>
    cases done
    cases done'
    exact same
  | error => cases done

theorem after (events : List Event) (same : SameRun hidden x x') :
    SameRun hidden ⟨events ++ x.events, x.result⟩ ⟨events ++ x'.events, x'.result⟩ := by
  cases same with
  | ok later same => exact .ok (events ++ later) same
  | error later e => exact .error (events ++ later) e

theorem tell_bind (e : Event) (same : SameRun hidden x x') :
    SameRun hidden (Traced.tell e >>= fun _ => x) (Traced.tell e >>= fun _ => x') :=
  same.after [e]

theorem bind {f f' : Grammar → Traced Grammar} (first : SameRun hidden x x')
    (next : ∀ k k', SameOutside hidden k k' → SameRun hidden (f k) (f' k')) :
    SameRun hidden (x >>= f) (x' >>= f') := by
  cases first with
  | ok events same => exact (next _ _ same).after events
  | error events e => exact .error events e

end SameRun

theorem sameRun_substituteTraced (same : SameOutside hidden k k') (ha : a ∉ hidden)
    (hb : b ∉ hidden) : SameRun hidden (k.substituteTraced a b) (k'.substituteTraced a b) := by
  have substituted : SameRun hidden (pure (k.substitute a b)) (pure (k'.substitute a b)) :=
    .ok [] (same.substitute ha hb)
  simp only [substituteTraced, same.alternatives a ha]
  split
  · exact substituted.tell_bind _
  · exact substituted

theorem sameRun_substituteAll (same : SameOutside hidden k k') (ha : a ∉ hidden) {bs : List Char}
    (hbs : ∀ b ∈ bs, b ∉ hidden) :
    SameRun hidden (k.substituteAll a bs) (k'.substituteAll a bs) := by
  induction bs generalizing k k' with
  | nil => exact .ok [] same
  | cons b bs ih =>
    obtain ⟨hb, hbs⟩ := List.forall_mem_cons.1 hbs
    exact (sameRun_substituteTraced same ha hb).bind fun _ _ same => ih same hbs

theorem sameRun_split (same : SameOutside hidden k k') (ha : a ∉ hidden) :
    SameRun hidden (k.split a) (k'.split a) := by
  simp only [split, same.recursive_eq ha, same.others_eq ha, same.freshName_eq]
  by_cases none : k'.recursive a = []
  · simp only [if_pos none]
    exact .ok [] same
  · simp only [if_neg none]
    cases k'.freshName with
    | error e => exact .error [] e
    | ok helper =>
      have parted : SameRun hidden (pure (k.splitInto a helper)) (pure (k'.splitInto a helper)) :=
        .ok [] (same.splitInto ha helper)
      dsimp only
      split
      · exact (parted.tell_bind _).tell_bind _
      · exact parted.tell_bind _

/-- As long as no name of `hidden` has a turn, nothing shows what the grammars have for them. -/
theorem sameRun_eliminateFrom (same : SameOutside hidden k k')
    (early : ∀ a ∈ earlier, a ∉ hidden) (due : ∀ a ∈ remaining, a ∉ hidden) :
    SameRun hidden (k.eliminateFrom earlier remaining) (k'.eliminateFrom earlier remaining) := by
  induction remaining generalizing k k' earlier with
  | nil => exact .ok [] same
  | cons a remaining ih =>
    obtain ⟨ha, due⟩ := List.forall_mem_cons.1 due
    have early' : ∀ b ∈ earlier ++ [a], b ∉ hidden := by
      intro b hb
      rcases List.mem_append.1 hb with hb | hb
      · exact early b hb
      · exact List.mem_singleton.1 hb ▸ ha
    refine (sameRun_substituteAll same ha early).bind fun _ _ same => ?_
    exact (sameRun_split same ha).bind fun _ _ same => ih same early' due

def splitsOf (front : List Char) (events : List Event) : List (Char × Char) :=
  (splits events).filter (·.1 ∈ front)

/-- In the elimination that leads from `g` to `h`, the grammar is `k` when the names in `front` have
had their turns and those in `behind` have not. -/
structure Parted (g h : Grammar) (front behind : List Char) (k : Grammar) : Prop where
  order : g.nonTerminals = front ++ behind
  before : (g.eliminateFrom [] front).result = .ok k
  after : (k.eliminateFrom front behind).result = .ok h

theorem exists_parted (e : g.eliminate = .ok h) (order : g.nonTerminals = front ++ behind) :
    ∃ k, Parted g h front behind k := by
  rw [eliminate, eliminateTraced_eq order, Traced.result_bind] at e
  obtain ⟨k, before, after⟩ := exists_of_bind_eq_ok e
  exact ⟨k, order, before, after⟩

namespace Parted

variable (parted : Parted g h front behind k)

include parted

theorem front_declared : ∀ c ∈ front, c ∈ g := fun c hc => by
  rw [mem_iff, parted.order]
  exact List.mem_append_left _ hc

theorem behind_declared : ∀ c ∈ behind, c ∈ g := fun c hc => by
  rw [mem_iff, parted.order]
  exact List.mem_append_right _ hc

theorem not_mem_behind (ha : a ∈ front) : a ∉ behind := fun hb => by
  have nodup := g.nodup_nonTerminals
  rw [parted.order] at nodup
  exact (List.nodup_append.1 nodup).2.2 a ha a hb rfl

theorem mem (hc : c ∈ g) : c ∈ k :=
  mem_of_eliminateFrom parted.front_declared hc parted.before

/-- The second part of the run changes the names behind alone. -/
theorem alternatives_eq (hc : c ∈ k) (visible : c ∉ behind) :
    h.alternatives c = k.alternatives c :=
  alternatives_eliminateFrom_of_not_mem (fun b hb => parted.mem (parted.behind_declared b hb)) hc
    visible parted.after

/-- All splits of names in front are in the first part of the run. -/
theorem splitsOf_eq :
    splitsOf front g.eliminateTraced.events = splits (g.eliminateFrom [] front).events := by
  have first : SplitsInOrder g front (g.eliminateFrom [] front) :=
    splitsInOrder_eliminateFrom parted.front_declared
  have second : SplitsInOrder k behind (k.eliminateFrom front behind) :=
    splitsInOrder_eliminateFrom fun b hb => parted.mem (parted.behind_declared b hb)
  rw [splitsOf, eliminateTraced_eq parted.order, Traced.events_bind_of_ok parted.before,
    splits_append, List.filter_append, List.filter_eq_self.2, List.filter_eq_nil_iff.2,
    List.append_nil]
  · intro s hs late
    have here := second.order.subset (List.mem_map_of_mem hs)
    exact parted.not_mem_behind (of_decide_eq_true late) here
  · intro s hs
    exact decide_eq_true (first.order.subset (List.mem_map_of_mem hs))

/-- The helpers of the names in front come behind the names of the input. -/
theorem nonTerminals_eq :
    k.nonTerminals =
      g.nonTerminals ++ (splitsOf front g.eliminateTraced.events).map Prod.snd := by
  rw [parted.splitsOf_eq]
  exact (splitsInOrder_eliminateFrom parted.front_declared).added k parted.before

theorem alternatives_helper (hs : (a, helper) ∈ splitsOf front g.eliminateTraced.events) :
    helper ∉ behind ∧ h.alternatives helper = k.alternatives helper := by
  have named : helper ∈ (splitsOf front g.eliminateTraced.events).map Prod.snd :=
    List.mem_map_of_mem hs
  have nodup := k.nodup_nonTerminals
  rw [parted.nonTerminals_eq] at nodup
  have visible : helper ∉ behind := fun hb =>
    (List.nodup_append.1 nodup).2.2 helper (parted.behind_declared helper hb) helper named rfl
  have declared : helper ∈ k := by
    rw [mem_iff, parted.nonTerminals_eq]
    exact List.mem_append_right _ named
  exact ⟨visible, parted.alternatives_eq declared visible⟩

end Parted

/-- Two grammars with the same names that agree on the names in front are eliminated alike as far as
these are concerned: the results agree on them, the same of them are split, with the same helpers,
and the results agree on the helpers. -/
theorem eliminate_agrees_in_front (order : g.nonTerminals = front ++ behind)
    (names : g'.nonTerminals = g.nonTerminals)
    (agree : ∀ a ∈ front, g.alternatives a = g'.alternatives a) (e : g.eliminate = .ok h)
    (e' : g'.eliminate = .ok h') :
    (∀ a ∈ front, h.alternatives a = h'.alternatives a) ∧
      splitsOf front g.eliminateTraced.events = splitsOf front g'.eliminateTraced.events ∧
        ∀ a helper, (a, helper) ∈ splitsOf front g.eliminateTraced.events →
          h.alternatives helper = h'.alternatives helper := by
  obtain ⟨k, parted⟩ := exists_parted e order
  obtain ⟨k', parted'⟩ := exists_parted e' (names.trans order)
  have run : SameRun behind (g.eliminateFrom [] front) (g'.eliminateFrom [] front) :=
    sameRun_eliminateFrom (sameOutside_of_order order names agree) (by simp)
      fun a ha => parted.not_mem_behind ha
  have same : SameOutside behind k k' := run.sameOutside parted.before parted'.before
  have splits_eq :
      splitsOf front g.eliminateTraced.events = splitsOf front g'.eliminateTraced.events := by
    rw [parted.splitsOf_eq, parted'.splitsOf_eq, run.events_eq]
  refine ⟨fun a ha => ?_, splits_eq, fun a helper hs => ?_⟩
  · have visible := parted.not_mem_behind ha
    have declared := parted.mem (parted.front_declared a ha)
    rw [parted.alternatives_eq declared visible,
      parted'.alternatives_eq (same.mem_iff.1 declared) visible, same.alternatives a visible]
  · obtain ⟨visible, left⟩ := parted.alternatives_helper hs
    obtain ⟨_, right⟩ := parted'.alternatives_helper (splits_eq ▸ hs)
    rw [left, right, same.alternatives helper visible]

def crossedBefore (ps : List Body) : Grammar where
  rules := crossed.rules ++ [⟨'B', ps⟩]
  nodup := by
    show ['S', 'A', 'B'].Nodup
    decide

def looping : Grammar :=
  crossedBefore (["Bb", "x"].map Body.ofString)

def loopingFreed : Grammar where
  rules := [
    ⟨'S', ["AZ"].map Body.ofString⟩,
    ⟨'A', ["dY"].map Body.ofString⟩,
    ⟨'B', ["xX"].map Body.ofString⟩,
    ⟨'Z', ["aZ", "e"].map Body.ofString⟩,
    ⟨'Y', ["ZcY", "e"].map Body.ofString⟩,
    ⟨'X', ["bX", "e"].map Body.ofString⟩]
  nodup := by decide

/-- The third name leads to a name in front, and it writes the name that a helper in front gets. -/
def borrowing : Grammar :=
  crossedBefore (["ZA", "Sq"].map Body.ofString)

def borrowingFreed : Grammar where
  rules := [
    ⟨'S', ["AZ"].map Body.ofString⟩,
    ⟨'A', ["dY"].map Body.ofString⟩,
    ⟨'B', ["ZA", "dYZq"].map Body.ofString⟩,
    ⟨'Z', ["aZ", "e"].map Body.ofString⟩,
    ⟨'Y', ["ZcY", "e"].map Body.ofString⟩]
  nodup := by decide

theorem eliminate_agrees_in_front_crossed :
    (looping.eliminate = .ok loopingFreed ∧ borrowing.eliminate = .ok borrowingFreed ∧
      ∀ a ∈ ['S', 'A'], looping.alternatives a = borrowing.alternatives a) ∧
      (∀ a ∈ ['S', 'A'], loopingFreed.alternatives a = borrowingFreed.alternatives a) ∧
        splitsOf ['S', 'A'] looping.eliminateTraced.events =
          splitsOf ['S', 'A'] borrowing.eliminateTraced.events ∧
        ('S', 'Z') ∈ splitsOf ['S', 'A'] looping.eliminateTraced.events ∧
          loopingFreed.alternatives 'Z' = borrowingFreed.alternatives 'Z' := by
  have freed : looping.eliminate = .ok loopingFreed := rfl
  have freed' : borrowing.eliminate = .ok borrowingFreed := rfl
  have agree : ∀ a ∈ ['S', 'A'], looping.alternatives a = borrowing.alternatives a :=
    List.forall_mem_cons.2 ⟨rfl, List.forall_mem_singleton.2 rfl⟩
  have order : looping.nonTerminals = ['S', 'A'] ++ ['B'] := rfl
  have names : borrowing.nonTerminals = looping.nonTerminals := rfl
  obtain ⟨front, splits, helpers⟩ := eliminate_agrees_in_front order names agree freed freed'
  have parted : ('S', 'Z') ∈ splitsOf ['S', 'A'] looping.eliminateTraced.events := by
    have all : splitsOf ['S', 'A'] looping.eliminateTraced.events = [('S', 'Z'), ('A', 'Y')] :=
      rfl
    rw [all]
    exact List.mem_cons_self ..
  exact ⟨⟨freed, freed', agree⟩, front, splits, parted, helpers 'S' 'Z' parted⟩

end Grammar

end LeftRecursion
