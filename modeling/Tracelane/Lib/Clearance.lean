import Mathlib.Algebra.GroupWithZero.Nat
import Mathlib.Algebra.BigOperators.Group.List.Basic

/-
  A queue whose items are released in order, each of them once
  the sizes up to it are within what has been cleared.
-/

namespace Clearance

variable {φ : Type} (size : φ → Nat)

def total (items : List φ) : Nat :=
  (items.map size).sum

/- The items that go out, and those that wait. -/
def release (cleared : Nat) :
    Nat → List φ → List φ × List φ
| _, [] => ([], [])
| released, f :: rest =>
    if released + size f ≤ cleared then
      let r := release cleared (released + size f) rest
      (f :: r.1, r.2)
    else ([], f :: rest)

variable {size} {cleared released : Nat}

@[simp] theorem total_cons (f : φ) (rest : List φ) :
    total size (f :: rest) = size f + total size rest := rfl

@[simp] theorem total_append (items more : List φ) :
    total size (items ++ more) = total size items + total size more := by
  simp [total]

variable (items : List φ)

/- Nothing is lost, and the order is kept. -/
theorem release_append :
    (release size cleared released items).1 ++ (release size cleared released items).2 = items := by
  induction items generalizing released with
  | nil => rfl
  | cons f rest ih =>
    unfold release
    split
    · rw [List.cons_append, ih]
    · rfl

/- What goes out is within what is cleared. -/
theorem released_le (hWithin : released ≤ cleared) :
    released + total size (release size cleared released items).1 ≤ cleared := by
  induction items generalizing released with
  | nil => exact hWithin
  | cons f rest ih =>
    unfold release
    split_ifs with hFits
    · have hRest := ih hFits
      rw [total_cons]
      omega
    · exact hWithin

/- What has been cleared in full goes out in full. -/
theorem release_all (hAll : released + total size items ≤ cleared) :
    (release size cleared released items).2 = [] := by
  induction items generalizing released with
  | nil => rfl
  | cons f rest ih =>
    rw [total_cons] at hAll
    unfold release
    rw [if_pos (by omega)]
    exact ih (by omega)

end Clearance
