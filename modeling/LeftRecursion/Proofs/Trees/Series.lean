import Mathlib

/-!
# Series

A series gives every word a number, which may be infinite: how often the word is meant. The sum of
two series counts either, the product counts the ways to cut a word into a part for each. Unlike for
languages, a sum of equal series is not that series again, so the star is not the one of a Kleene
algebra. It still is the least solution of its equations, from either side (`star_le` and
`mul_star_le`).
-/

namespace LeftRecursion

def Series : Type :=
  List Char → ℕ∞

namespace Series

variable {f f' g g' h : Series} {n : ℕ∞} {c d : Char} {w : List Char}

noncomputable instance : CompleteLattice Series :=
  inferInstanceAs (CompleteLattice (List Char → ℕ∞))

instance : AddCommMonoid Series :=
  inferInstanceAs (AddCommMonoid (List Char → ℕ∞))

instance : IsOrderedAddMonoid Series :=
  inferInstanceAs (IsOrderedAddMonoid (List Char → ℕ∞))

instance : SMul ℕ∞ Series :=
  inferInstanceAs (SMul ℕ∞ (List Char → ℕ∞))

@[ext] theorem ext (same : ∀ w, f w = g w) : f = g :=
  funext same

@[simp] theorem zero_apply : (0 : Series) w = 0 := rfl

@[simp] theorem add_apply : (f + g) w = f w + g w := rfl

@[simp] theorem smul_apply : (n • f) w = n * f w := rfl

protected theorem iSup_apply {s : ℕ → Series} : (⨆ n, s n) w = ⨆ n, s n w :=
  iSup_apply

protected theorem zero_le (f : Series) : 0 ≤ f :=
  fun _ => zero_le

/-- What `f` says of words that start with `c`, as seen behind the `c`. -/
def after (c : Char) (f : Series) : Series :=
  fun w => f (c :: w)

/-- The first part is either empty or takes the first character. -/
def product (f g : Series) : List Char → ℕ∞
  | [] => f [] * g []
  | c :: w => f [] * g (c :: w) + product (f.after c) g w

instance : Mul Series := ⟨product⟩

/-- Means the empty word once. -/
instance : One Series := ⟨fun w => if w = [] then 1 else 0⟩

@[simp] theorem one_nil : (1 : Series) [] = 1 := rfl

@[simp] theorem one_cons : (1 : Series) (c :: w) = 0 := rfl

@[simp] theorem mul_nil : (f * g) [] = f [] * g [] := rfl

theorem mul_cons : (f * g) (c :: w) = f [] * g (c :: w) + (f.after c * g) w := rfl

@[simp] theorem after_apply : f.after c w = f (c :: w) := rfl

@[simp] theorem after_zero : after c 0 = 0 := rfl

@[simp] theorem after_one : after c 1 = 0 := rfl

@[simp] theorem after_add : (f + g).after c = f.after c + g.after c := rfl

@[simp] theorem after_mul : (f * g).after c = f [] • g.after c + f.after c * g := rfl

protected theorem zero_mul (f : Series) : 0 * f = 0 := by
  ext w
  induction w with
  | nil => simp
  | cons c w ih => simpa [mul_cons] using ih

protected theorem mul_zero (f : Series) : f * 0 = 0 := by
  ext w
  induction w generalizing f with
  | nil => simp
  | cons c w ih => simpa [mul_cons] using ih _

protected theorem add_mul (f g h : Series) : (f + g) * h = f * h + g * h := by
  ext w
  induction w generalizing f g with
  | nil => simp [add_mul]
  | cons c w ih =>
    simp only [mul_cons, after_add, ih, add_apply, add_mul]
    exact add_add_add_comm _ _ _ _

protected theorem mul_add (f g h : Series) : f * (g + h) = f * g + f * h := by
  ext w
  induction w generalizing f with
  | nil => simp [mul_add]
  | cons c w ih =>
    simp only [mul_cons, ih, add_apply, mul_add]
    exact add_add_add_comm _ _ _ _

theorem smul_mul (n : ℕ∞) (f g : Series) : n • f * g = n • (f * g) := by
  ext w
  induction w generalizing f with
  | nil => simp [mul_assoc]
  | cons c w ih =>
    have later : (n • f.after c * g) w = n * (f.after c * g) w := ih (f.after c)
    calc (n • f * g) (c :: w)
        = n * f [] * g (c :: w) + (n • f.after c * g) w := rfl
      _ = n * (f [] * g (c :: w) + (f.after c * g) w) := by rw [later, mul_assoc, mul_add]

protected theorem mul_assoc (f g h : Series) : f * g * h = f * (g * h) := by
  ext w
  induction w generalizing f with
  | nil => simp [mul_assoc]
  | cons c w ih =>
    simp only [mul_cons, after_mul, Series.add_mul, smul_mul, add_apply, smul_apply, ih, mul_nil,
      mul_add, mul_assoc, add_assoc]

protected theorem one_mul (f : Series) : 1 * f = f := by
  ext w
  cases w with
  | nil => simp
  | cons c w => simp [mul_cons, Series.zero_mul]

protected theorem mul_one (f : Series) : f * 1 = f := by
  ext w
  induction w generalizing f with
  | nil => simp
  | cons c w ih => simpa [mul_cons] using ih (f.after c)

instance : Semiring Series where
  __ := (inferInstance : AddCommMonoid Series)
  zero_mul := Series.zero_mul
  mul_zero := Series.mul_zero
  left_distrib := Series.mul_add
  right_distrib := Series.add_mul
  mul_assoc := Series.mul_assoc
  one_mul := Series.one_mul
  mul_one := Series.mul_one

protected theorem mul_le_mul (hf : f ≤ f') (hg : g ≤ g') : f * g ≤ f' * g' := by
  intro w
  induction w generalizing f f' with
  | nil => exact mul_le_mul' (hf []) (hg [])
  | cons c w ih =>
    have first : f [] * g (c :: w) ≤ f' [] * g' (c :: w) := mul_le_mul' (hf []) (hg (c :: w))
    exact add_le_add first (ih fun v => hf (c :: v))

instance : MulLeftMono Series := ⟨fun _ _ _ => Series.mul_le_mul le_rfl⟩

instance : MulRightMono Series := ⟨fun _ _ _ le => Series.mul_le_mul le le_rfl⟩

section Limits

variable {s : ℕ → Series} (mono : Monotone s)

theorem add_iSup (f : Series) (s : ℕ → Series) : f + ⨆ n, s n = ⨆ n, f + s n := by
  ext w
  simp only [add_apply, Series.iSup_apply, ENat.add_iSup]

include mono

theorem mul_iSup (f : Series) : f * ⨆ n, s n = ⨆ n, f * s n := by
  ext w
  rw [Series.iSup_apply]
  induction w generalizing f with
  | nil => simp only [mul_nil, Series.iSup_apply, ENat.mul_iSup]
  | cons c w ih =>
    simp only [mul_cons, ih, Series.iSup_apply, ENat.mul_iSup]
    apply ENat.iSup_add_iSup_of_monotone
    · exact fun i j le => mul_le_mul' le_rfl (mono le (c :: w))
    · exact fun i j le => Series.mul_le_mul le_rfl (mono le) w

theorem iSup_mul (f : Series) : (⨆ n, s n) * f = ⨆ n, s n * f := by
  ext w
  rw [Series.iSup_apply]
  induction w generalizing s with
  | nil => simp only [mul_nil, Series.iSup_apply, ENat.iSup_mul]
  | cons c w ih =>
    have split : (⨆ n, s n).after c = ⨆ n, (s n).after c := by
      ext v
      simp only [after, Series.iSup_apply]
    have mono' : Monotone fun n => (s n).after c := fun i j le v => mono le (c :: v)
    simp only [mul_cons, split, ih mono', Series.iSup_apply, ENat.iSup_mul]
    apply ENat.iSup_add_iSup_of_monotone
    · exact fun i j le => mul_le_mul' (mono le []) le_rfl
    · exact fun i j le => Series.mul_le_mul (mono' le) le_rfl w

end Limits

def parts (f : Series) : ℕ → Series
  | 0 => 0
  | n + 1 => 1 + f * f.parts n

noncomputable def star (f : Series) : Series :=
  ⨆ n, f.parts n

theorem monotone_parts (f : Series) : Monotone f.parts := by
  apply monotone_nat_of_le_succ
  intro n
  induction n with
  | zero => exact Series.zero_le _
  | succ n ih => exact add_le_add le_rfl (mul_le_mul' le_rfl ih)

/-- The new part may as well come last. -/
theorem parts_succ (f : Series) (n : ℕ) : f.parts (n + 1) = 1 + f.parts n * f := by
  induction n with
  | zero => simp [parts]
  | succ n ih =>
    calc f.parts (n + 1 + 1)
        = 1 + f * (1 + f.parts n * f) := by rw [parts, ih]
      _ = 1 + (1 + f * f.parts n) * f := by simp only [mul_add, add_mul, mul_one, one_mul, mul_assoc]
      _ = 1 + f.parts (n + 1) * f := rfl

theorem parts_le_star (f : Series) (n : ℕ) : f.parts n ≤ f.star :=
  le_iSup f.parts n

theorem one_add_mul_star_le (f : Series) : 1 + f * f.star ≤ f.star := by
  rw [star, mul_iSup f.monotone_parts, add_iSup]
  exact iSup_le fun n => f.parts_le_star (n + 1)

theorem one_add_star_mul_le (f : Series) : 1 + f.star * f ≤ f.star := by
  rw [star, iSup_mul f.monotone_parts, add_iSup]
  apply iSup_le
  intro n
  rw [← parts_succ]
  exact f.parts_le_star (n + 1)

theorem star_le (closed : 1 + f * g ≤ g) : f.star ≤ g := by
  apply iSup_le
  intro n
  induction n with
  | zero => exact Series.zero_le g
  | succ n ih => exact (add_le_add le_rfl (mul_le_mul' le_rfl ih)).trans closed

theorem mul_star_le (closed : g + h * f ≤ h) : g * f.star ≤ h := by
  rw [star, mul_iSup f.monotone_parts]
  apply iSup_le
  intro n
  induction n with
  | zero => simpa [parts] using Series.zero_le h
  | succ n ih =>
    calc g * f.parts (n + 1)
        = g + g * f.parts n * f := by rw [parts_succ, mul_add, mul_one, mul_assoc]
      _ ≤ g + h * f := add_le_add le_rfl (mul_le_mul' ih le_rfl)
      _ ≤ h := closed

def single (c : Char) : Series :=
  fun w => if w = [c] then 1 else 0

@[simp] theorem single_nil : single c [] = 0 := rfl

theorem after_single : (single c).after d = if d = c then 1 else 0 := by
  ext w
  by_cases same : d = c
  · simp only [after, single, same, List.cons.injEq, true_and, if_true]
    rfl
  · simp [after, single, same]

theorem single_mul_cons : (single c * f) (d :: w) = if d = c then f w else 0 := by
  rw [mul_cons, single_nil, zero_mul, zero_add, after_single]
  split
  · rw [one_mul]
  · rw [zero_mul, zero_apply]

end Series

end LeftRecursion
