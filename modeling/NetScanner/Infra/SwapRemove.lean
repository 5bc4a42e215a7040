import Mathlib.Data.List.Induction
import Mathlib.Data.List.Perm.Basic

/-!
# Removal by swapping the last element in

An array that keeps its elements in `0 .. len` in no particular order removes slot `i` by
moving the last element into it. The elements kept are the ones other than slot `i`.
-/

namespace NetScanner.Infra

open scoped List

variable {α : Type*}

/-- Overwrite slot `i` with the last element and drop the last slot. -/
def swapRemove (l : List α) (i : Nat) : List α :=
  match l.getLast? with
  | none => []
  | some last => (l.set i last).dropLast

theorem swapRemove_concat (front : List α) (last : α) (i : Nat) :
    swapRemove (front ++ [last]) i = front.set i last := by
  unfold swapRemove
  rw [List.getLast?_concat]
  show ((front ++ [last]).set i last).dropLast = front.set i last
  by_cases hi : i < front.length
  · rw [List.set_append_left _ _ hi, List.dropLast_concat]
  · have hset : front.set i last = front := List.set_eq_of_length_le (by omega)
    rw [List.set_append_right _ _ (by omega), hset]
    cases hk : i - front.length with
    | zero => simp
    | succ k => simp

theorem swapRemove_map {β : Type*} (f : α → β) (l : List α) (i : Nat) :
    swapRemove (l.map f) i = (swapRemove l i).map f := by
  cases l using List.reverseRecOn with
  | nil => rfl
  | append_singleton front last =>
    rw [List.map_append, List.map_singleton, swapRemove_concat, swapRemove_concat, List.map_set]

/-- **Nothing is lost and nothing is doubled**: slot `i` and what is left make up the
array. -/
theorem cons_swapRemove_perm {l : List α} {i : Nat} (h : i < l.length) :
    l[i] :: swapRemove l i ~ l := by
  cases l using List.reverseRecOn with
  | nil => simp at h
  | append_singleton front last =>
    rw [swapRemove_concat]
    rw [List.length_append, List.length_singleton] at h
    by_cases hi : i < front.length
    · rw [List.getElem_append_left hi]
      calc front[i] :: front.set i last
          ~ front[i] :: last :: front.eraseIdx i := (List.set_perm_cons_eraseIdx hi last).cons _
        _ ~ last :: front[i] :: front.eraseIdx i := List.Perm.swap _ _ _
        _ ~ last :: front := (List.getElem_cons_eraseIdx_perm hi).cons _
        _ ~ front ++ [last] := (List.perm_append_singleton last front).symm
    · have hlast : (front ++ [last])[i] = last := by
        rw [List.getElem_append_right (by omega)]
        simp
      have hset : front.set i last = front := List.set_eq_of_length_le (by omega)
      rw [hlast, hset]
      exact (List.perm_append_singleton last front).symm

/-- The slots before `i` are left alone. -/
theorem take_swapRemove {l : List α} {i : Nat} (h : i < l.length) :
    (swapRemove l i).take i = l.take i := by
  cases l using List.reverseRecOn with
  | nil => simp at h
  | append_singleton front last =>
    rw [List.length_append, List.length_singleton] at h
    rw [swapRemove_concat, List.take_set_of_le (Nat.le_refl i),
      List.take_append_of_le_length (by omega)]

/-- The slots from `i` on are those behind slot `i`. -/
theorem drop_swapRemove_perm {l : List α} {i : Nat} (h : i < l.length) :
    (swapRemove l i).drop i ~ l.drop (i + 1) := by
  have hperm := cons_swapRemove_perm h
  have hleft : l[i] :: swapRemove l i ~ l.take i ++ l[i] :: (swapRemove l i).drop i := by
    have hsplit := List.take_append_drop i (swapRemove l i)
    rw [take_swapRemove h] at hsplit
    calc l[i] :: swapRemove l i = l[i] :: (l.take i ++ (swapRemove l i).drop i) := by rw [hsplit]
      _ ~ l.take i ++ l[i] :: (swapRemove l i).drop i := List.perm_middle.symm
  have hright : l = l.take i ++ l[i] :: l.drop (i + 1) := by
    rw [List.getElem_cons_drop, List.take_append_drop]
  have hall : l.take i ++ l[i] :: (swapRemove l i).drop i ~
      l.take i ++ l[i] :: l.drop (i + 1) := by
    refine hleft.symm.trans (hperm.trans ?_)
    rw [← hright]
  exact ((List.perm_append_left_iff _).mp hall).cons_inv

/-- The same on an array that is longer than what it keeps: slot `i` gets the last element. -/
theorem take_set_eq_swapRemove {arr : List α} {len i : Nat} (h : len < arr.length) :
    (arr.set i arr[len]).take len = swapRemove (arr.take (len + 1)) i := by
  rw [List.take_succ_eq_append_getElem h, swapRemove_concat, List.take_set]

/-- Two parallel arrays, written at one slot. -/
theorem zip_set {β : Type*} (as : List α) (bs : List β) (i : Nat) (a : α) (b : β) :
    (as.set i a).zip (bs.set i b) = (as.zip bs).set i (a, b) := by
  induction as generalizing bs i with
  | nil => simp
  | cons a' as ih =>
    cases bs with
    | nil => simp
    | cons b' bs =>
      cases i with
      | zero => rfl
      | succ i =>
        show (a', b') :: (as.set i a).zip (bs.set i b) = (a', b') :: (as.zip bs).set i (a, b)
        rw [ih]

end NetScanner.Infra
