import Mathlib
import InkModel.Failure

/-! # Accesses within their tables

Reads, writes and copies that may lie outside their tables: they give nothing then. A computation
that checks all of its accesses ends at the first one outside, which is neither a result nor an
error of its own.
-/

namespace InkModel

section Checked

variable {ε β γ : Type}

/-- What an access gives, or the end of the computation. -/
def checked : Option β → Except (Failure ε) β
  | some b => .ok b
  | none => .error .outside

/-- A computation whose failures are errors of its own. -/
def refusing (x : Except ε β) : Except (Failure ε) β := x.mapError .refused

theorem checked_some_bind {b : β} {f : β → Except (Failure ε) γ} :
    checked (some b) >>= f = f b := rfl

theorem map_eq_outside_iff {x : Except (Failure ε) β} {g : β → γ} :
    x.map g = .error .outside ↔ x = .error .outside := by
  cases x <;> simp [Except.map]

/-- Other errors do not become an access outside a table, and that stays what it is. -/
theorem mapError_eq_outside_iff {δ : Type} {x : Except (Failure ε) β} {f : ε → δ} :
    x.mapError (Failure.map f) = .error .outside ↔ x = .error .outside := by
  cases x with
  | ok b => simp [Except.mapError]
  | error e => cases e <;> simp [Except.mapError, Failure.map]

/-- A traversal that reads within its tables all along. -/
theorem mapM_eq_some_map {f : β → Option γ} {g : β → γ} {xs : List β}
    (each : ∀ x ∈ xs, f x = some (g x)) : xs.mapM f = some (xs.map g) := by
  induction xs with
  | nil => rfl
  | cons x xs ih =>
      obtain ⟨first, others⟩ := List.forall_mem_cons.mp each
      rw [List.mapM_cons, first, ih others]
      rfl

/-- A traversal by index finds the entries of a table. -/
theorem mapM_range_eq_some {f : ℕ → Option β} {ys : List β}
    (entries : ∀ i < ys.length, f i = ys[i]?) : (List.range ys.length).mapM f = some ys := by
  induction ys using List.reverseRecOn with
  | nil => rfl
  | append_singleton ys y ih =>
      have before : ∀ i < ys.length, f i = ys[i]? := fun i inside => by
        rw [entries i (by simp; omega), List.getElem?_append_left inside]
      have last : f ys.length = some y := by
        rw [entries ys.length (by simp), List.getElem?_concat_length]
      rw [List.length_append, List.length_singleton, List.range_succ, List.mapM_append, ih before]
      simp [last]

open Classical in
/-- A function that has a value wherever it may be asked for one. -/
noncomputable def everywhere? (f : β → Option γ) : Option (β → γ) :=
  if h : ∀ b, (f b).isSome then some fun b => (f b).get (h b) else none

theorem everywhere?_eq {f : β → Option γ} {g : β → γ} (each : ∀ b, f b = some (g b)) :
    everywhere? f = some g := by
  have defined : ∀ b, (f b).isSome := fun b => by rw [each b]; rfl
  rw [everywhere?, dif_pos defined]
  exact congrArg some (funext fun b => Option.get_of_eq_some _ (each b))

end Checked

section Arrays

variable {β : Type} {n : ℕ} {a b : Array β}

/-- The array with entry `i` overwritten, if there is one. -/
def set? (a : Array β) (i : ℕ) (x : β) : Option (Array β) :=
  if i < a.size then some (a.setIfInBounds i x) else none

theorem set?_of_lt {i : ℕ} (inside : i < a.size) (x : β) :
    set? a i x = some (a.setIfInBounds i x) :=
  if_pos inside

/-- What `n` entries become when others are copied over them, which have to be as many. -/
def copied? (n : ℕ) (a : Array β) : Option (Array β) := if a.size = n then some a else none

theorem copied?_of_size (size : a.size = n) : copied? n a = some a := if_pos size

/-- An array of `n` entries, each from the same entries of two others. -/
def combined? (n : ℕ) (g : β → β → β) (a b : Array β) : Option (Array β) :=
  ((List.range n).mapM fun j => a[j]?.bind fun x => b[j]?.map (g x)).map List.toArray

theorem combined?_eq (left : a.size = n) (right : b.size = n) (g : β → β → β) :
    combined? n g a b = some (Array.zipWith g a b) := by
  have size : (Array.zipWith g a b).toList.length = n := by simp [left, right]
  have entries : (List.range n).mapM (fun j => a[j]?.bind fun x => b[j]?.map (g x)) =
      some (Array.zipWith g a b).toList := by
    rw [← size]
    refine mapM_range_eq_some fun j inside => ?_
    rw [size] at inside
    simp [left ▸ inside, right ▸ inside]
  rw [combined?, entries, Option.map_some, Array.toArray_toList]

end Arrays

end InkModel
