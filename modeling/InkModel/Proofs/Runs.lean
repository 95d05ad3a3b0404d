import Mathlib

/-! # Runs that succeed

A run that may fail, taken apart: it succeeds when each of its steps does, and what it answers is
made of their answers.
-/

namespace InkModel

variable {ε β γ δ : Type}

theorem bind_eq_ok_iff {x : Except ε β} {f : β → Except ε γ} {c : γ} :
    x >>= f = .ok c ↔ ∃ b, x = .ok b ∧ f b = .ok c := by
  cases x <;> simp [bind, Except.bind]

theorem map_eq_ok_iff {x : Except ε β} {g : β → γ} {c : γ} :
    x.map g = .ok c ↔ ∃ b, x = .ok b ∧ g b = c := by
  cases x <;> simp [Except.map]

theorem mapError_eq_ok_iff {x : Except ε β} {f : ε → δ} {b : β} :
    x.mapError f = .ok b ↔ x = .ok b := by
  cases x <;> simp [Except.mapError]

theorem map_bind_eq (x : Except ε β) (g : β → γ) (f : γ → Except ε δ) :
    x.map g >>= f = x >>= fun b => f (g b) := by
  cases x <;> rfl

theorem mapM_eq_ok_iff {f : β → Except ε γ} {xs : List β} {ys : List γ} :
    xs.mapM f = .ok ys ↔ List.Forall₂ (fun x y => f x = .ok y) xs ys := by
  constructor
  · intro run
    induction xs generalizing ys with
    | nil =>
        cases run
        exact .nil
    | cons x xs ih =>
        simp only [List.mapM_cons, bind_eq_ok_iff] at run
        obtain ⟨y, first, rest, later, same⟩ := run
        cases same
        exact .cons first (ih later)
  · intro all
    induction all with
    | nil => rfl
    | cons first _ ih =>
        rw [List.mapM_cons, first, ih]
        rfl

theorem mapM_congr {f g : β → Except ε γ} {xs : List β} (same : ∀ x ∈ xs, f x = g x) :
    xs.mapM f = xs.mapM g := by
  induction xs with
  | nil => rfl
  | cons x xs ih =>
      obtain ⟨first, others⟩ := List.forall_mem_cons.mp same
      rw [List.mapM_cons, List.mapM_cons, first, ih others]

/-- Where every step comes to the image of a result, the whole run does. -/
theorem mapM_eq_map_mapM {f : β → Except ε γ} {f' : β → Except ε δ} {g : γ → δ} {xs : List β}
    (moved : ∀ x ∈ xs, f' x = (f x).map g) : xs.mapM f' = (xs.mapM f).map (List.map g) := by
  induction xs with
  | nil => rfl
  | cons x xs ih =>
      obtain ⟨first, later⟩ := List.forall_mem_cons.mp moved
      rw [List.mapM_cons, List.mapM_cons, first, ih later]
      cases f x with
      | error e => rfl
      | ok c => cases xs.mapM f <;> rfl

/-! Lists entry by entry. -/

theorem exists_mem_of_forall₂ {R : β → γ → Prop} {xs : List β} {ys : List γ}
    (all : List.Forall₂ R xs ys) {x : β} (mem : x ∈ xs) : ∃ y ∈ ys, R x y := by
  induction all with
  | nil => cases mem
  | cons first others ih =>
      rcases List.mem_cons.mp mem with rfl | later
      · exact ⟨_, List.mem_cons_self, first⟩
      · obtain ⟨y, hy, related⟩ := ih later
        exact ⟨y, List.mem_cons_of_mem _ hy, related⟩

theorem exists_getElem?_of_forall₂ {R : β → γ → Prop} {xs : List β} {ys : List γ}
    (all : List.Forall₂ R xs ys) {k : ℕ} {x : β} (here : xs[k]? = some x) :
    ∃ y, ys[k]? = some y ∧ R x y := by
  induction all generalizing k with
  | nil => simp at here
  | cons first _ ih =>
      cases k with
      | zero =>
          obtain rfl : _ = x := by simpa using here
          exact ⟨_, rfl, first⟩
      | succ k => exact ih here

theorem forall₂_three {R : β → γ → Prop} {a b c : β} {ys : List γ}
    (all : List.Forall₂ R [a, b, c] ys) : ∃ x y z, R a x ∧ R b y ∧ R c z ∧ ys = [x, y, z] := by
  simp only [List.forall₂_cons_left_iff, List.forall₂_nil_left_iff] at all
  obtain ⟨x, _, hx, ⟨y, _, hy, ⟨z, _, hz, rfl, rfl⟩, rfl⟩, rfl⟩ := all
  exact ⟨x, y, z, hx, hy, hz, rfl⟩

end InkModel
