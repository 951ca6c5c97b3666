import Mathlib.Data.List.Basic
import Mathlib.Logic.Function.Basic

/-!
# Windows of a circular buffer

`n` cells are addressed modulo `n`. A window is a run of cells that hold a list, one value
a cell, from some position on; it never covers a cell twice.
-/

namespace Circular

variable {α : Type*} {n lo : Nat} {cells : Nat → α} {xs ys : List α}

/-- Two positions less than a round apart are in different cells. -/
theorem mod_ne_mod {i j : Nat} (hlt : i < j) (hround : j < i + n) : j % n ≠ i % n := by
  intro heq
  have hdvd : n ∣ j - i := Nat.dvd_of_mod_eq_zero (Nat.sub_mod_eq_zero_of_mod_eq heq)
  have := Nat.le_of_dvd (by omega) hdvd
  omega

theorem succ_mod (i : Nat) : (i % n + 1) % n = (i + 1) % n := by simp

/-- The cells from position `lo` on hold the list. -/
def Window (n : Nat) (cells : Nat → α) (lo : Nat) (xs : List α) : Prop :=
  ∀ i (h : i < xs.length), cells ((lo + i) % n) = xs[i]

theorem Window.nil : Window n cells lo [] := fun _ h => absurd h (Nat.not_lt_zero _)

theorem Window.head {x : α} (h : Window n cells lo (x :: xs)) : cells (lo % n) = x :=
  h 0 (Nat.zero_lt_succ _)

theorem Window.tail {x : α} (h : Window n cells lo (x :: xs)) : Window n cells (lo + 1) xs := by
  intro i hi
  have := h (i + 1) (Nat.succ_lt_succ hi)
  rwa [← Nat.add_assoc, Nat.add_right_comm] at this

theorem Window.left (h : Window n cells lo (xs ++ ys)) : Window n cells lo xs := by
  intro i hi
  rw [h i (by rw [List.length_append]; omega), List.getElem_append_left hi]

/-- Storing behind a window that leaves a cell free makes it longer. -/
theorem Window.store (h : Window n cells lo xs) (hroom : xs.length < n) (x : α) :
    Window n (Function.update cells ((lo + xs.length) % n) x) lo (xs ++ [x]) := by
  intro i hi
  rw [List.length_append, List.length_singleton] at hi
  by_cases hlast : i = xs.length
  · subst hlast
    rw [Function.update_self, List.getElem_concat_length rfl]
  · have hlt : i < xs.length := by omega
    have hne : (lo + xs.length) % n ≠ (lo + i) % n := mod_ne_mod (by omega) (by omega)
    rw [Function.update_of_ne hne.symm, h i hlt, List.getElem_append_left hlt]

end Circular
