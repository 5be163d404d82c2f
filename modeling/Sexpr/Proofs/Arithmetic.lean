import Mathlib.Algebra.BigOperators.Group.List.Basic
import Mathlib.Algebra.Ring.Int.Defs
import Mathlib.Data.List.Chain
import Mathlib.Data.List.Pairwise
import Sexpr.Builtin
import Sexpr.Proofs.Rendering

/-!
# Arithmetic

The operations on integers are exact for any number of integers of any size, and they look
at all of their arguments before they compute. Main statement: each has a value exactly if
all arguments are integers; sums and products do not depend on the order of the arguments
or on how they are divided into parts; a difference can be taken all at once or one number
after the other; and comparing neighbours is comparing all pairs.
-/
namespace Sexpr

/-! ## Arguments that are integers -/

/-- The first of the arguments that is no integer. -/
def Offends (args : List Value) (arg : Value) : Prop :=
  ∃ (numbers : List Int) (rest : List Value),
    args = numbers.map .int ++ arg :: rest ∧ ∀ n, arg ≠ .int n

section
variable {args : List Value} {arg : Value} {numbers : List Int}

theorem Value.int_or_not (value : Value) : (∃ n, value = .int n) ∨ ∀ n, value ≠ .int n := by
  cases value with
  | int n => exact .inl ⟨n, rfl⟩
  | nil | bool | str | sym | list | quote | prim | foreign => exact .inr nofun

theorem integers_map (numbers : List Int) : integers (numbers.map .int) = .ok numbers := by
  induction numbers with
  | nil => rfl
  | cons n numbers ih =>
    rw [List.map_cons, integers, ih]
    rfl

theorem Offends.integers_eq (h : Offends args arg) :
    integers args = .error (.notAnInteger arg) := by
  obtain ⟨numbers, rest, rfl, harg⟩ := h
  induction numbers with
  | nil =>
    cases arg with
    | int n => exact absurd rfl (harg n)
    | nil | bool | str | sym | list | quote | prim | foreign => rfl
  | cons n numbers ih =>
    rw [List.map_cons, List.cons_append, integers, ih]
    rfl

theorem Offends.head {rest : List Value} (h : ∀ n, arg ≠ .int n) : Offends (arg :: rest) arg :=
  ⟨[], rest, rfl, h⟩

theorem Offends.tail {n : Int} (h : Offends args arg) : Offends (.int n :: args) arg := by
  obtain ⟨numbers, rest, rfl, harg⟩ := h
  exact ⟨n :: numbers, rest, rfl, harg⟩

theorem integers_or_offends (args : List Value) :
    (∃ numbers : List Int, args = numbers.map .int) ∨ ∃ arg, Offends args arg := by
  induction args with
  | nil => exact .inl ⟨[], rfl⟩
  | cons first args ih =>
    rcases first.int_or_not with ⟨n, rfl⟩ | hfirst
    · rcases ih with ⟨numbers, rfl⟩ | ⟨arg, hoffends⟩
      · exact .inl ⟨n :: numbers, rfl⟩
      · exact .inr ⟨arg, hoffends.tail⟩
    · exact .inr ⟨first, .head hfirst⟩

theorem integers_eq_ok_iff : integers args = .ok numbers ↔ args = numbers.map .int := by
  constructor
  · intro h
    rcases integers_or_offends args with ⟨numbers', rfl⟩ | ⟨arg, hoffends⟩
    · rw [integers_map] at h
      rw [Except.ok.inj h]
    · rw [hoffends.integers_eq] at h
      cases h
  · rintro rfl
    exact integers_map numbers

theorem integers_eq_error_iff {rejection : Rejection} :
    integers args = .error rejection ↔ ∃ arg, Offends args arg ∧ rejection = .notAnInteger arg := by
  constructor
  · intro h
    rcases integers_or_offends args with ⟨numbers, rfl⟩ | ⟨arg, hoffends⟩
    · rw [integers_map] at h
      cases h
    · rw [hoffends.integers_eq] at h
      cases h
      exact ⟨arg, hoffends, rfl⟩
  · rintro ⟨arg, hoffends, rfl⟩
    exact hoffends.integers_eq

theorem exists_integers_iff :
    (∃ numbers : List Int, args = numbers.map .int) ↔ ∀ arg ∈ args, ∃ n, arg = .int n := by
  constructor
  · rintro ⟨numbers, rfl⟩ arg harg
    obtain ⟨n, -, rfl⟩ := List.mem_map.mp harg
    exact ⟨n, rfl⟩
  · intro h
    refine (integers_or_offends args).resolve_right ?_
    rintro ⟨arg, numbers, rest, rfl, harg⟩
    obtain ⟨n, heq⟩ := h arg (by simp)
    exact harg n heq

/-- Integers in another order are integers. -/
theorem perm_integers {args' : List Value} (h : (numbers.map .int).Perm args') :
    ∃ numbers', args' = numbers'.map .int ∧ numbers.Perm numbers' := by
  obtain ⟨numbers', rfl⟩ : ∃ numbers' : List Int, args' = numbers'.map .int :=
    exists_integers_iff.mpr fun arg harg =>
      exists_integers_iff.mp ⟨numbers, rfl⟩ arg (h.mem_iff.mpr harg)
  exact ⟨numbers', rfl, (List.map_perm_map_iff fun _ _ => Value.int.inj).mp h⟩

end

/-! ## Neighbours -/

theorem chained_iff {related : Int → Int → Bool} {numbers : List Int} :
    chained related numbers = true ↔ numbers.IsChain fun a b => related a b = true := by
  induction numbers using chained.induct with
  | case1 a b rest ih => rw [chained, Bool.and_eq_true, List.isChain_cons_cons, ih]
  | case2 numbers h =>
    match numbers, h with
    | [], _ => simp [chained]
    | [n], _ => simp [chained]
    | a :: b :: rest, h => exact absurd rfl (h a b rest)

/-- A relation that carries over is one of all pairs if it is one of neighbours. -/
theorem chained_eq (r : Int → Int → Prop) [DecidableRel r] [Trans r r r] (numbers : List Int) :
    chained (fun a b => decide (r a b)) numbers = decide (numbers.Pairwise r) := by
  rw [Bool.eq_iff_iff, chained_iff, decide_eq_true_iff, ← List.isChain_iff_pairwise]
  simp only [decide_eq_true_iff]

theorem chained_equal (numbers : List Int) :
    chained (fun a b => decide (a = b)) numbers =
      decide (∀ a ∈ numbers, ∀ b ∈ numbers, a = b) := by
  rw [chained_eq (· = ·), decide_eq_decide]
  exact ⟨fun h _ ha _ hb => h.forall_of_forall (fun _ _ => rfl) ha hb, List.pairwise_of_forall_mem_list⟩

/-! ## Operations on integers -/

namespace Builtin

/-- The operations on integers. -/
def arithmetic : List Builtin := [.add, .subtract, .multiply, .equal, .less]

/-- What an operation makes of integers, if it is one on integers. -/
def ofIntegers? : Builtin → Option (List Int → Value)
  | .add => some fun numbers => .int (total numbers)
  | .subtract => some fun numbers => .int (difference numbers)
  | .multiply => some fun numbers => .int (product numbers)
  | .equal => some fun numbers => .bool (chained (fun a b => decide (a = b)) numbers)
  | .less => some fun numbers => .bool (chained (fun a b => decide (a < b)) numbers)
  | _ => none

variable {operation : Builtin} {answer : List Int → Value} {args : List Value} {value : Value}

theorem exists_ofIntegers? (h : operation ∈ arithmetic) :
    ∃ answer, operation.ofIntegers? = some answer := by
  simp only [arithmetic, List.mem_cons, List.not_mem_nil, or_false] at h
  rcases h with rfl | rfl | rfl | rfl | rfl <;> exact ⟨_, rfl⟩

/-- All arguments are looked at first. -/
theorem apply_eq_map (h : operation.ofIntegers? = some answer) (args : List Value) :
    operation.apply args = answer <$> integers args := by
  cases operation <;> cases h <;> rw [apply] <;> cases integers args <;> rfl

theorem apply_map (h : operation.ofIntegers? = some answer) (numbers : List Int) :
    operation.apply (numbers.map .int) = .ok (answer numbers) := by
  rw [apply_eq_map h, integers_map]
  rfl

theorem apply_eq_ok_iff (h : operation.ofIntegers? = some answer) :
    operation.apply args = .ok value ↔
      ∃ numbers : List Int, args = numbers.map .int ∧ value = answer numbers := by
  rw [apply_eq_map h]
  constructor
  · intro hvalue
    cases hnumbers : integers args with
    | error rejection =>
      rw [hnumbers] at hvalue
      cases hvalue
    | ok numbers =>
      rw [hnumbers] at hvalue
      cases hvalue
      exact ⟨numbers, integers_eq_ok_iff.mp hnumbers, rfl⟩
  · rintro ⟨numbers, rfl, rfl⟩
    rw [integers_map]
    rfl

theorem apply_eq_error_iff (h : operation.ofIntegers? = some answer) {rejection : Rejection} :
    operation.apply args = .error rejection ↔
      ∃ arg, Offends args arg ∧ rejection = .notAnInteger arg := by
  rw [apply_eq_map h, ← integers_eq_error_iff]
  cases integers args with
  | error reason => simp
  | ok numbers => simp

/-! ## Order and parts -/

/-- An operation that makes the same integer of integers in any order has the same value for
any arguments in any order. -/
theorem apply_perm {compute : List Int → Int}
    (h : operation.ofIntegers? = some fun numbers => .int (compute numbers))
    (hcompute : ∀ numbers numbers' : List Int, numbers.Perm numbers' →
      compute numbers = compute numbers') {args' : List Value} (hargs : args.Perm args')
    (hvalue : operation.apply args = .ok value) : operation.apply args' = .ok value := by
  obtain ⟨numbers, rfl, rfl⟩ := (apply_eq_ok_iff h).mp hvalue
  obtain ⟨numbers', rfl, hperm⟩ := perm_integers hargs
  rw [apply_map h, hcompute _ _ hperm]

/-- An operation that makes an integer of integers can be applied to the parts of its arguments
first, if it comes to the same on integers. -/
theorem apply_flatten {compute : List Int → Int}
    (h : operation.ofIntegers? = some fun numbers => .int (compute numbers))
    (hcompute : ∀ parts : List (List Int), compute (parts.map compute) = compute parts.flatten)
    {parts : List (List Value)} {values : List Value}
    (hvalues : parts.mapM operation.apply = .ok values) :
    operation.apply values = operation.apply parts.flatten := by
  obtain ⟨numbers, rfl, rfl⟩ : ∃ numbers : List (List Int),
      parts = numbers.map (List.map .int) ∧ values = (numbers.map compute).map .int := by
    induction parts generalizing values with
    | nil =>
      cases hvalues
      exact ⟨[], rfl, rfl⟩
    | cons part parts ih =>
      rw [List.mapM_cons] at hvalues
      obtain ⟨value, hvalue, hrest⟩ := bind_eq_ok_iff.mp hvalues
      obtain ⟨others, hothers, hreturn⟩ := bind_eq_ok_iff.mp hrest
      cases hreturn
      obtain ⟨first, rfl, rfl⟩ := (apply_eq_ok_iff h).mp hvalue
      obtain ⟨numbers, rfl, rfl⟩ := ih hothers
      exact ⟨first :: numbers, rfl, rfl⟩
  rw [← List.map_flatten, apply_map h, apply_map h, hcompute]

theorem total_eq_sum (numbers : List Int) : total numbers = numbers.sum :=
  List.sum_eq_foldl.symm

theorem product_eq_prod (numbers : List Int) : product numbers = numbers.prod :=
  List.prod_eq_foldl.symm

theorem total_flatten (parts : List (List Int)) : total (parts.map total) = total parts.flatten := by
  rw [funext total_eq_sum, List.sum_flatten]

theorem product_flatten (parts : List (List Int)) :
    product (parts.map product) = product parts.flatten := by
  rw [funext product_eq_prod, List.prod_flatten]

/-- Sums and products make an integer of integers, in any order and in any parts. -/
theorem add_or_multiply (h : operation ∈ [Builtin.add, .multiply]) :
    ∃ compute : List Int → Int, operation.ofIntegers? = some (fun numbers => .int (compute numbers)) ∧
      (∀ numbers numbers', numbers.Perm numbers' → compute numbers = compute numbers') ∧
      ∀ parts : List (List Int), compute (parts.map compute) = compute parts.flatten := by
  simp only [List.mem_cons, List.not_mem_nil, or_false] at h
  rcases h with rfl | rfl
  · refine ⟨total, rfl, fun numbers numbers' hperm => ?_, total_flatten⟩
    rw [total_eq_sum, total_eq_sum, hperm.sum_eq]
  · refine ⟨product, rfl, fun numbers numbers' hperm => ?_, product_flatten⟩
    rw [product_eq_prod, product_eq_prod, hperm.prod_eq]

/-! ## Differences -/

theorem difference_cons {n : Int} {others : List Int} (h : others ≠ []) :
    difference (n :: others) = n - others.sum := by
  cases others with
  | nil => exact absurd rfl h
  | cons m others => exact congrArg (n - ·) (total_eq_sum (m :: others))

/-- The first two arguments can be taken first. -/
theorem subtract_two (first second third : Value) (rest : List Value) :
    subtract.apply (first :: second :: third :: rest) =
      subtract.apply [first, second] >>= fun left => subtract.apply (left :: third :: rest) := by
  have hrejects {args : List Value} {arg : Value} (h : Offends args arg) :
      subtract.apply args = .error (.notAnInteger arg) :=
    (apply_eq_error_iff rfl).mpr ⟨arg, h, rfl⟩
  -- The first argument that is no integer is rejected either way.
  rcases first.int_or_not with ⟨n, rfl⟩ | hfirst
  · rcases second.int_or_not with ⟨m, rfl⟩ | hsecond
    · have htwo : subtract.apply [.int n, .int m] = .ok (.int (n - m)) := by
        change Except.ok (Value.int (n - (0 + m))) = _
        rw [Int.zero_add]
      rw [htwo]
      change _ = subtract.apply (.int (n - m) :: third :: rest)
      rcases integers_or_offends (third :: rest) with ⟨numbers, hnumbers⟩ | ⟨arg, hoffends⟩
      · have hne : numbers ≠ [] := by
          rintro rfl
          cases hnumbers
        rw [hnumbers, ← List.map_cons, ← List.map_cons, ← List.map_cons, apply_map rfl, apply_map rfl,
          difference_cons (List.cons_ne_nil _ _), difference_cons hne, List.sum_cons, Int.sub_sub]
      · rw [hrejects hoffends.tail.tail, hrejects hoffends.tail]
    · rw [hrejects (Offends.head hsecond).tail, hrejects (Offends.head hsecond).tail]
      rfl
  · rw [hrejects (.head hfirst), hrejects (.head hfirst)]
    rfl

/-- The arguments after the first can be taken one after the other. -/
theorem subtract_each {first : Value} {others : List Value} (h : others ≠ []) :
    subtract.apply (first :: others) =
      others.foldlM (fun left other => subtract.apply [left, other]) first := by
  induction others generalizing first with
  | nil => exact absurd rfl h
  | cons second others ih =>
    rw [List.foldlM_cons]
    cases others with
    | nil => cases subtract.apply [first, second] <;> rfl
    | cons third rest =>
      rw [subtract_two]
      simp only [ih (List.cons_ne_nil third rest)]

end Builtin

/-- Arithmetic is exact. With as many arguments as it needs, an operation on integers has a value
exactly if all of them are integers, and otherwise it rejects the first that is none. Sums and
products are those of all the integers; they do not depend on the order of the arguments, and
parts of these can be taken first. A single integer is negated; from the first of several all
others are taken, in one sum or one after the other. Equality holds if all pairs are equal, and
the order if each integer is less than every later one. -/
theorem arithmetic_exact :
    (∀ primitive ∈ Primitive.builtins, ∀ operation ∈ Builtin.arithmetic,
      primitive.operation = .builtin operation →
      ∀ args : List Value, primitive.minArity ≤ args.length →
        ((∃ value, operation.apply args = .ok value) ↔ ∀ arg ∈ args, ∃ n, arg = .int n) ∧
        ∀ rejection, operation.apply args = .error rejection ↔
          ∃ arg, Offends args arg ∧ rejection = .notAnInteger arg) ∧
    (∀ numbers : List Int,
      Builtin.add.apply (numbers.map .int) = .ok (.int numbers.sum) ∧
      Builtin.multiply.apply (numbers.map .int) = .ok (.int numbers.prod)) ∧
    (∀ operation ∈ [Builtin.add, .multiply],
      (∀ args args' : List Value, args.Perm args' → ∀ value,
        operation.apply args = .ok value ↔ operation.apply args' = .ok value) ∧
      ∀ (parts : List (List Value)) values, parts.mapM operation.apply = .ok values →
        operation.apply values = operation.apply parts.flatten) ∧
    (∀ n : Int, Builtin.subtract.apply [.int n] = .ok (.int (-n))) ∧
    (∀ (n : Int) (others : List Int), others ≠ [] →
      Builtin.subtract.apply ((n :: others).map .int) = .ok (.int (n - others.sum))) ∧
    (∀ first others, others ≠ [] → Builtin.subtract.apply (first :: others) =
      others.foldlM (fun left other => Builtin.subtract.apply [left, other]) first) ∧
    ∀ numbers : List Int,
      Builtin.equal.apply (numbers.map .int) =
        .ok (.bool (decide (∀ a ∈ numbers, ∀ b ∈ numbers, a = b))) ∧
      Builtin.less.apply (numbers.map .int) = .ok (.bool (decide (numbers.Pairwise (· < ·)))) := by
  refine ⟨?_, ?_, ?_, fun _ => rfl, ?_, fun _ _ => Builtin.subtract_each, fun numbers => ?_⟩
  · intro primitive _ operation hoperation _ args _
    obtain ⟨answer, hanswer⟩ := Builtin.exists_ofIntegers? hoperation
    refine ⟨?_, fun rejection => Builtin.apply_eq_error_iff hanswer⟩
    simp only [Builtin.apply_eq_ok_iff hanswer, ← exists_integers_iff]
    exact ⟨fun ⟨_, numbers, hargs, _⟩ => ⟨numbers, hargs⟩,
      fun ⟨numbers, hargs⟩ => ⟨_, numbers, hargs, rfl⟩⟩
  · intro numbers
    rw [Builtin.apply_map rfl, Builtin.apply_map rfl, Builtin.total_eq_sum, Builtin.product_eq_prod]
    exact ⟨rfl, rfl⟩
  · intro operation hoperation
    obtain ⟨compute, hanswer, hperm, hparts⟩ := Builtin.add_or_multiply hoperation
    refine ⟨fun args args' hargs value => ⟨?_, ?_⟩, fun parts values => ?_⟩
    · exact Builtin.apply_perm hanswer hperm hargs
    · exact Builtin.apply_perm hanswer hperm hargs.symm
    · exact Builtin.apply_flatten hanswer hparts
  · intro n others hothers
    rw [Builtin.apply_map rfl, Builtin.difference_cons hothers]
  · rw [Builtin.apply_map rfl, Builtin.apply_map rfl, chained_equal, chained_eq (· < ·)]
    exact ⟨rfl, rfl⟩

/-- That the first two arguments decide the order does not spare the third from being looked at.
The sums of parts, one of them empty, have the sum of all. -/
theorem arithmetic_exact_sample :
    (¬∃ value, Builtin.less.apply [.int 2, .int 1, .bool true] = .ok value) ∧
      Builtin.add.apply [.int 3, .int 0, .int 3] = Builtin.add.apply [.int 1, .int 2, .int 3] ∧
      Builtin.subtract.apply [.int 7, .int 1, .int 2] = .ok (.int 4) := by
  obtain ⟨hvalue, -, hparts, -, hdifference, -⟩ := arithmetic_exact
  refine ⟨?_, ?_, hdifference 7 [1, 2] nofun⟩
  · obtain ⟨hless, -⟩ := hvalue ⟨"<", 1, .builtin .less⟩ (by decide) .less (by decide) rfl
      [.int 2, .int 1, .bool true] (by decide)
    intro h
    obtain ⟨n, hn⟩ := hless.mp h (.bool true) (by simp)
    cases hn
  · exact (hparts .add (by decide)).2 [[.int 1, .int 2], [], [.int 3]] [.int 3, .int 0, .int 3] rfl

end Sexpr
