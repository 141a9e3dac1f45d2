import LeftRecursion.Proofs.Elimination.FixedPoint
import LeftRecursion.Proofs.Elimination.Turn

/-!
# The events of an elimination

A turn reports its substitutions and then its split, and all of its events are about the name whose
turn it is. So every event of a run that is about a name belongs to the turn of that name
(`Cut.mem_treat_iff`), and what a turn reports can be read off the grammar before it.
-/

namespace LeftRecursion

namespace Event

def subject : Event → Option Char
  | longLeftSide .. => none
  | substituted a .. => some a
  | split a .. => some a
  | emptied a => some a

def split? : Event → Option (Char × Char)
  | split a helper .. => some (a, helper)
  | _ => none

/-- The names that were split, each with its helper, in order. -/
def splits (events : List Event) : List (Char × Char) :=
  events.filterMap split?

@[simp] theorem splits_append (events further : List Event) :
    splits (events ++ further) = splits events ++ splits further :=
  List.filterMap_append

def splitReport (a helper : Char) (recursive others : Nat) : List Event :=
  split a helper recursive others :: if others = 0 then [emptied a] else []

variable {a b helper helper' : Char} {m n m' n' : Nat} {event : Event}

@[simp] theorem splits_splitReport : splits (splitReport a helper m n) = [(a, helper)] := by
  unfold splitReport
  split <;> rfl

theorem subject_of_mem_splitReport (reported : event ∈ splitReport a helper m n) :
    event.subject = some a := by
  rcases List.mem_cons.1 reported with rfl | rest
  · rfl
  · split at rest
    · rw [List.mem_singleton.1 rest]
      rfl
    · cases rest

theorem split_mem_splitReport_iff :
    split b helper' m' n' ∈ splitReport a helper m n ↔
      b = a ∧ helper' = helper ∧ m' = m ∧ n' = n := by
  unfold splitReport
  split <;> simp

theorem emptied_mem_splitReport_iff : emptied b ∈ splitReport a helper m n ↔ b = a ∧ n = 0 := by
  unfold splitReport
  split <;> simp_all

end Event

namespace Grammar

open Event

variable {g h k l : Grammar} {earlier remaining bs : List Char} {a b c helper : Char} {m n : Nat}
  {event : Event} {e : Failure}

theorem events_substituteTraced (k : Grammar) (a b : Char) :
    (k.substituteTraced a b).events =
      if k.LeadsAtOnce a b then [.substituted a b ((k.alternatives a).countP (·.StartsWith b))]
      else [] := by
  have counted : (k.alternatives a).countP (·.StartsWith b) > 0 ↔ k.LeadsAtOnce a b := by
    simp only [gt_iff_lt, List.countP_pos_iff, decide_eq_true_eq, LeadsAtOnce]
  simp only [substituteTraced, counted]
  split <;> rfl

theorem events_substituteAll_cons (k : Grammar) (a b : Char) (bs : List Char) :
    (k.substituteAll a (b :: bs)).events =
      (k.substituteTraced a b).events ++ ((k.substitute a b).substituteAll a bs).events := by
  rw [substituteAll, Traced.events_bind_of_ok (result_substituteTraced k a b)]

theorem eq_substituted_of_mem (reported : event ∈ (k.substituteAll a bs).events) :
    ∃ b n, event = .substituted a b n := by
  induction bs generalizing k with
  | nil => cases reported
  | cons b bs ih =>
    rw [events_substituteAll_cons, events_substituteTraced, List.mem_append] at reported
    rcases reported with first | later
    · split at first
      · exact ⟨b, _, List.mem_singleton.1 first⟩
      · cases first
    · exact ih later

theorem not_mem_substituteAll (other : ∀ b n, event ≠ .substituted a b n) :
    event ∉ (k.substituteAll a bs).events := by
  intro reported
  obtain ⟨b, n, same⟩ := eq_substituted_of_mem reported
  exact other b n same

theorem splits_events_substituteAll : splits (k.substituteAll a bs).events = [] := by
  apply List.filterMap_eq_nil_iff.2
  intro event reported
  obtain ⟨b, n, rfl⟩ := eq_substituted_of_mem reported
  rfl

/-- Substitutions of which nothing is reported have changed nothing. -/
theorem expose_eq_self_of_silent (ha : a ∈ k) (silent : (k.substituteAll a bs).events = []) :
    k.expose a bs = k := by
  induction bs with
  | nil => exact expose_nil k a
  | cons b bs ih =>
    rw [events_substituteAll_cons, events_substituteTraced] at silent
    obtain ⟨first, later⟩ := List.append_eq_nil_iff.1 silent
    have idle : ¬k.LeadsAtOnce a b := by
      intro leads
      rw [if_pos leads] at first
      cases first
    rw [substitute_eq_self ha idle] at later
    rw [expose_cons, substitute_eq_self ha idle]
    exact ih later

/-- A split is reported exactly if there was one. -/
theorem split_report_cases (done : (k.split a).result = .ok l) :
    k.recursive a = [] ∧ l = k ∧ (k.split a).events = [] ∨
      k.recursive a ≠ [] ∧ ∃ helper, k.freshName = .ok helper ∧ l = k.splitInto a helper ∧
        (k.split a).events =
          splitReport a helper (k.recursive a).length (k.others a).length := by
  rcases split_cases done with ⟨none, same⟩ | ⟨some, helper, fresh, same⟩
  · refine .inl ⟨none, same, ?_⟩
    rw [split_of_recursive_eq_nil none]
    rfl
  · refine .inr ⟨some, helper, fresh, same, ?_⟩
    rw [split, if_neg some, fresh, splitReport]
    simp only [List.length_eq_zero_iff]
    split <;> rfl

theorem events_split_of_error (failed : (k.split a).result = .error e) :
    k.freshName = .error e ∧ (k.split a).events = [] := by
  rw [result_split] at failed
  split at failed
  · cases failed
  · next some =>
    cases fresh : k.freshName with
    | ok helper => rw [fresh] at failed; cases failed
    | error e' =>
      rw [fresh] at failed
      cases failed
      rw [split, if_neg some, fresh]
      exact ⟨rfl, rfl⟩

theorem subject_of_mem_treat (reported : event ∈ (k.treat earlier a).events) :
    event.subject = some a := by
  rw [events_treat, List.mem_append] at reported
  rcases reported with substitution | splitting
  · obtain ⟨b, n, rfl⟩ := eq_substituted_of_mem substitution
    rfl
  · cases done : ((k.expose a earlier).split a).result with
    | error e =>
      rw [(events_split_of_error done).2] at splitting
      cases splitting
    | ok l =>
      rcases split_report_cases done with ⟨_, _, none⟩ | ⟨_, helper, _, _, report⟩
      · rw [none] at splitting
        cases splitting
      · rw [report] at splitting
        exact subject_of_mem_splitReport splitting

theorem eliminateFrom_cons_of_ok (done : (k.treat earlier a).result = .ok l) :
    k.eliminateFrom earlier (a :: remaining) =
      ⟨(k.treat earlier a).events ++ (l.eliminateFrom (earlier ++ [a]) remaining).events,
        (l.eliminateFrom (earlier ++ [a]) remaining).result⟩ := by
  rw [eliminateFrom_cons]
  apply Traced.ext
  · exact Traced.events_bind_of_ok done _
  · rw [Traced.result_bind, done]
    rfl

theorem eliminateFrom_cons_of_error (failed : (k.treat earlier a).result = .error e) :
    k.eliminateFrom earlier (a :: remaining) = ⟨(k.treat earlier a).events, .error e⟩ := by
  rw [eliminateFrom_cons]
  apply Traced.ext
  · exact Traced.events_bind_of_error failed _
  · rw [Traced.result_bind, failed]
    rfl

/-- Every event is about one of the names that had their turns. -/
theorem subject_of_mem_eliminateFrom
    (reported : event ∈ (k.eliminateFrom earlier remaining).events) :
    ∃ a ∈ remaining, event.subject = some a := by
  induction remaining generalizing k earlier with
  | nil => cases reported
  | cons a remaining ih =>
    cases turn : (k.treat earlier a).result with
    | error e =>
      rw [eliminateFrom_cons_of_error turn] at reported
      exact ⟨a, List.mem_cons_self .., subject_of_mem_treat reported⟩
    | ok l =>
      rw [eliminateFrom_cons_of_ok turn] at reported
      rcases List.mem_append.1 reported with now | later
      · exact ⟨a, List.mem_cons_self .., subject_of_mem_treat now⟩
      · obtain ⟨b, hb, about⟩ := ih later
        exact ⟨b, List.mem_cons_of_mem _ hb, about⟩

theorem exists_order_of_subject (reported : event ∈ g.eliminateTraced.events)
    (about : event.subject = some a) :
    ∃ earlier remaining, g.nonTerminals = earlier ++ a :: remaining := by
  obtain ⟨b, hb, same⟩ := subject_of_mem_eliminateFrom reported
  cases about.symm.trans same
  exact List.append_of_mem hb

section Cut

variable (cut : Cut g h earlier a remaining k l)
  (order : g.nonTerminals = earlier ++ a :: remaining)

include order

theorem Cut.not_mem_before (about : event.subject = some a) :
    event ∉ (g.eliminateFrom [] earlier).events := by
  intro reported
  obtain ⟨b, hb, same⟩ := subject_of_mem_eliminateFrom reported
  cases about.symm.trans same
  exact ne_of_mem_before order hb rfl

theorem Cut.not_mem_after (about : event.subject = some a) :
    event ∉ (l.eliminateFrom (earlier ++ [a]) remaining).events := by
  intro reported
  obtain ⟨b, hb, same⟩ := subject_of_mem_eliminateFrom reported
  cases about.symm.trans same
  have nodup := g.nodup_nonTerminals
  rw [order] at nodup
  exact (List.nodup_cons.1 (List.nodup_append.1 nodup).2.1).1 hb

include cut

/-- What is reported of a name is reported in its turn. -/
theorem Cut.mem_treat_iff (about : event.subject = some a) :
    event ∈ g.eliminateTraced.events ↔ event ∈ (k.treat earlier a).events := by
  have early := Cut.not_mem_before order about
  have late := Cut.not_mem_after (l := l) order about
  rw [cut.events_eq order, List.mem_append, List.mem_append, or_iff_right early, or_iff_left late]

/-- What is reported of a name, its substitutions apart, is reported of its split. -/
theorem Cut.mem_split_iff (about : event.subject = some a)
    (other : ∀ b n, event ≠ .substituted a b n) :
    event ∈ g.eliminateTraced.events ↔ event ∈ ((k.expose a earlier).split a).events := by
  rw [cut.mem_treat_iff order about, events_treat, List.mem_append,
    or_iff_right (not_mem_substituteAll other)]

end Cut

end Grammar

end LeftRecursion
