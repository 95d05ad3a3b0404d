import InkModel.Proofs.Exact

/-! # Exact arithmetic with values that are not finite

The real numbers with the two infinities and the undefined value of doubles: sums and products of
finite numbers are exact, and the others follow the rules of doubles, apart from the sign of zero.
A comparison with the undefined value is false.
-/

namespace InkModel

inductive Extended where
  | real (x : ℝ)
  | infinite (negative : Bool)
  /-- The value of 0 / 0. -/
  | undefined

namespace Extended

protected noncomputable def add : Extended → Extended → Extended
  | real x, real y => real (x + y)
  | real _, infinite s | infinite s, real _ => infinite s
  | infinite s, infinite s' => if s = s' then infinite s else undefined
  | _, _ => undefined

protected def neg : Extended → Extended
  | real x => real (-x)
  | infinite s => infinite !s
  | undefined => undefined

protected noncomputable def mul : Extended → Extended → Extended
  | real x, real y => real (x * y)
  | real x, infinite s | infinite s, real x =>
    if x = 0 then undefined else infinite (s ^^ decide (x < 0))
  | infinite s, infinite s' => infinite (s ^^ s')
  | _, _ => undefined

protected noncomputable def div : Extended → Extended → Extended
  | real x, real y =>
    if y ≠ 0 then real (x / y) else if x ≠ 0 then infinite (decide (x < 0)) else undefined
  | real _, infinite _ => real 0
  | infinite s, real y => infinite (s ^^ decide (y < 0))
  | _, _ => undefined

protected def lt : Extended → Extended → Prop
  | real x, real y => x < y
  | real _, infinite s => s = false
  | infinite s, real _ => s = true
  | infinite s, infinite s' => s = true ∧ s' = false
  | _, _ => False

protected def le : Extended → Extended → Prop
  | real x, real y => x ≤ y
  | real _, infinite s => s = false
  | infinite s, real _ => s = true
  | infinite s, infinite s' => s = true ∨ s' = false
  | _, _ => False

/-- A real function with its limits at the two infinities. -/
def lift (f : ℝ → Extended) (below above : Extended) : Extended → Extended
  | real x => f x
  | infinite s => if s then below else above
  | undefined => undefined

open Classical in
/-- One of two numbers, where an undefined one gives way to the other. -/
noncomputable def choose (first : Extended → Extended → Prop) (x y : Extended) : Extended :=
  match x, y with
  | undefined, _ => y
  | _, undefined => x
  | _, _ => if first x y then x else y

end Extended

open Extended in
noncomputable instance : Scalar Extended where
  add := Extended.add
  sub x y := x.add y.neg
  mul := Extended.mul
  div := Extended.div
  neg := Extended.neg
  lt := Extended.lt
  le := Extended.le
  ofNat n := real n
  ofScientific m s e := real (OfScientific.ofScientific m s e)
  ltDecidable := Classical.decRel _
  leDecidable := Classical.decRel _
  abs := lift (fun x => real |x|) (infinite false) (infinite false)
  max := choose fun x y => y.le x
  min := choose fun x y => x.le y
  sqrt := lift (fun x => if 0 ≤ x then real √x else undefined) undefined (infinite false)
  cbrt := lift (fun x => real (realCbrt x)) (infinite true) (infinite false)
  exp := lift (fun x => real (Real.exp x)) (real 0) (infinite false)
  log := lift (fun x => if 0 < x then real (Real.log x) else
    if x = 0 then infinite true else undefined) undefined (infinite false)
  floor := lift (fun x => real ⌊x⌋) (infinite true) (infinite false)
  round := lift (fun x => real (Scalar.round x)) (infinite true) (infinite false)
  trunc
    | real x => max (-2 ^ 63) (min (Scalar.trunc x) (2 ^ 63 - 1))
    | infinite s => if s then -2 ^ 63 else 2 ^ 63 - 1
    | undefined => 0
  isFinite
    | real _ => true
    | _ => false

namespace Extended

/-! Finite numbers compute as the reals do. -/

variable (x y : ℝ)

theorem real_add : real x + real y = real (x + y) := rfl

theorem real_neg : -real x = real (-x) := rfl

theorem real_mul : real x * real y = real (x * y) := rfl

theorem real_sub : real x - real y = real (x - y) :=
  congrArg real (sub_eq_add_neg x y).symm

theorem real_div {y : ℝ} (hy : y ≠ 0) : real x / real y = real (x / y) := if_pos hy

@[simp] theorem real_lt_real {x y : ℝ} : real x < real y ↔ x < y := Iff.rfl

@[simp] theorem real_le_real {x y : ℝ} : real x ≤ real y ↔ x ≤ y := Iff.rfl

theorem zero_eq : @OfNat.ofNat Extended 0 Scalar.instOfNat = real 0 := congrArg real Nat.cast_zero

theorem one_eq : @OfNat.ofNat Extended 1 Scalar.instOfNat = real 1 := congrArg real Nat.cast_one

theorem ofNat_eq (n : ℕ) [n.AtLeastTwo] :
    @OfNat.ofNat Extended n Scalar.instOfNat = real (OfNat.ofNat n) := rfl

theorem isFinite_iff {a : Extended} : Scalar.isFinite a = true ↔ ∃ x, a = real x := by
  cases a with
  | real x => exact ⟨fun _ => ⟨x, rfl⟩, fun _ => rfl⟩
  | infinite s => exact ⟨nofun, nofun⟩
  | undefined => exact ⟨nofun, nofun⟩

variable {a b c : Extended}

theorem lt_trans (h : a < b) (h' : b < c) : a < c := by
  change Extended.lt a b at h
  change Extended.lt b c at h'
  change Extended.lt a c
  cases a <;> cases b <;> cases c <;> simp_all [Extended.lt]
  exact h.trans h'

theorem le_of_lt (h : a < b) : a ≤ b := by
  change Extended.lt a b at h
  change Extended.le a b
  cases a <;> cases b <;> simp_all [Extended.lt, Extended.le]
  exact h.le

end Extended

end InkModel
