import Mathlib.Order.Basic

/-!
# Binary search over an index range

The loop `while (low < high)` of a binary search, over a comparison of the wanted key with
the element at an index. `none` is a miss.

`binarySearch_sound` needs nothing of the elements: an index that is returned compares
equal. `binarySearch_isSome` needs the elements ordered consistently with the comparison
(`Consistent`).
-/

namespace NetScanner.Infra

/-- `cmp i` compares the key with the element at index `i`. The window `[low, high)`
shrinks in every round, so `high` rounds are enough from `low = 0`. -/
def binarySearchLoop (cmp : Nat → Ordering) : Nat → Nat → Nat → Option Nat
  | 0, _, _ => none
  | rounds + 1, low, high =>
    if low < high then
      let mid := low + (high - low) / 2
      match cmp mid with
      | .lt => binarySearchLoop cmp rounds low mid
      | .gt => binarySearchLoop cmp rounds (mid + 1) high
      | .eq => some mid
    else none

/-- Search the first `n` indices. -/
def binarySearch (cmp : Nat → Ordering) (n : Nat) : Option Nat := binarySearchLoop cmp n 0 n

/-- The first `n` elements are ordered consistently with the comparison. -/
structure Consistent (cmp : Nat → Ordering) (n : Nat) : Prop where
  lt_of_le : ∀ {i j}, i ≤ j → j < n → cmp i = .lt → cmp j = .lt
  gt_of_le : ∀ {i j}, i ≤ j → j < n → cmp j = .gt → cmp i = .gt

theorem binarySearchLoop_sound {cmp : Nat → Ordering} {rounds low high i : Nat}
    (h : binarySearchLoop cmp rounds low high = some i) :
    low ≤ i ∧ i < high ∧ cmp i = .eq := by
  induction rounds generalizing low high with
  | zero => simp [binarySearchLoop] at h
  | succ rounds ih =>
    unfold binarySearchLoop at h
    split at h
    · simp only [] at h
      split at h
      · obtain ⟨h1, h2, h3⟩ := ih h
        exact ⟨h1, by omega, h3⟩
      · obtain ⟨h1, h2, h3⟩ := ih h
        exact ⟨by omega, h2, h3⟩
      · next heq =>
        simp only [Option.some.injEq] at h
        subst h
        exact ⟨by omega, by omega, heq⟩
    · simp at h

/-- **A hit compares equal.** -/
theorem binarySearch_sound {cmp : Nat → Ordering} {n i : Nat} (h : binarySearch cmp n = some i) :
    i < n ∧ cmp i = .eq :=
  (binarySearchLoop_sound h).2

theorem binarySearchLoop_isSome {cmp : Nat → Ordering} {n rounds low high k : Nat}
    (hc : Consistent cmp n) (hhigh : high ≤ n) (hrounds : high - low ≤ rounds) (hlow : low ≤ k)
    (hk : k < high) (heq : cmp k = .eq) : (binarySearchLoop cmp rounds low high).isSome := by
  induction rounds generalizing low high with
  | zero => omega
  | succ rounds ih =>
    unfold binarySearchLoop
    rw [if_pos (by omega)]
    simp only []
    split
    · next hlt =>
      -- everything from `mid` on is past the key
      have hkm : k < low + (high - low) / 2 := by
        by_contra hge
        have := hc.lt_of_le (by omega) (by omega) hlt (j := k)
        rw [heq] at this
        simp at this
      exact ih (by omega) (by omega) hlow hkm
    · next hgt =>
      -- everything up to `mid` is before the key
      have hkm : low + (high - low) / 2 < k := by
        by_contra hge
        have := hc.gt_of_le (by omega) (by omega) hgt (i := k)
        rw [heq] at this
        simp at this
      exact ih hhigh (by omega) (by omega) hk
    · rfl

/-- **A key that is there is found.** -/
theorem binarySearch_isSome {cmp : Nat → Ordering} {n k : Nat} (hc : Consistent cmp n)
    (hk : k < n) (heq : cmp k = .eq) : (binarySearch cmp n).isSome :=
  binarySearchLoop_isSome hc (Nat.le_refl n) (by omega) (Nat.zero_le k) hk heq

/-- A miss: no element compares equal. -/
theorem binarySearch_eq_none {cmp : Nat → Ordering} {n : Nat} (hc : Consistent cmp n)
    (h : binarySearch cmp n = none) : ∀ k < n, cmp k ≠ .eq := by
  intro k hk heq
  have hsome := binarySearch_isSome hc hk heq
  rw [h] at hsome
  simp at hsome

/-- A list sorted by a key is ordered consistently with the comparison of a key. -/
theorem consistent_of_sorted {α : Type} {l : List α} {key : α → Nat} {cmp : Nat → Ordering}
    {k : Nat} (hsorted : l.Pairwise fun a b => key a ≤ key b)
    (hcmp : ∀ i (hi : i < l.length), cmp i = compare k (key l[i])) :
    Consistent cmp l.length := by
  have hle : ∀ i j (hij : i ≤ j) (hj : j < l.length), key l[i] ≤ key l[j] := by
    intro i j hij hj
    rcases Nat.lt_or_eq_of_le hij with hlt | rfl
    · exact List.pairwise_iff_getElem.mp hsorted i j (by omega) hj hlt
    · exact Nat.le_refl _
  constructor
  · intro i j hij hj h
    rw [hcmp i (by omega), Nat.compare_eq_lt] at h
    rw [hcmp j hj, Nat.compare_eq_lt]
    exact Nat.lt_of_lt_of_le h (hle i j hij hj)
  · intro i j hij hj h
    rw [hcmp j hj, Nat.compare_eq_gt] at h
    rw [hcmp i (by omega), Nat.compare_eq_gt]
    exact Nat.lt_of_le_of_lt (hle i j hij hj) h

section Sorted

variable {α : Type} {l : List α} {key : α → Nat} {cmp : Nat → Ordering} {k : Nat}

/-- **In a list sorted strictly by a key, the element with the key is found.** -/
theorem binarySearch_of_mem (hasc : l.Pairwise fun a b => key a < key b)
    (hcmp : ∀ i (hi : i < l.length), cmp i = compare k (key l[i])) {a : α} (ha : a ∈ l)
    (hk : key a = k) : ∃ i, ∃ hi : i < l.length, binarySearch cmp l.length = some i ∧ l[i] = a := by
  obtain ⟨j, hj, rfl⟩ := List.getElem_of_mem ha
  have hc := consistent_of_sorted (hasc.imp Nat.le_of_lt) hcmp
  have hsome := binarySearch_isSome hc hj (by rw [hcmp j hj, Nat.compare_eq_eq, hk])
  obtain ⟨i, hi⟩ := Option.isSome_iff_exists.mp hsome
  obtain ⟨hlt, heq⟩ := binarySearch_sound hi
  rw [hcmp i hlt, Nat.compare_eq_eq] at heq
  refine ⟨i, hlt, hi, ?_⟩
  have hij : i = j := by
    rcases Nat.lt_trichotomy i j with hlt' | rfl | hlt'
    · have := List.pairwise_iff_getElem.mp hasc i j hlt hj hlt'
      omega
    · rfl
    · have := List.pairwise_iff_getElem.mp hasc j i hj hlt hlt'
      omega
  subst hij
  rfl

/-- No element with the key: a miss. -/
theorem binarySearch_of_forall_ne (hcmp : ∀ i (hi : i < l.length), cmp i = compare k (key l[i]))
    (h : ∀ a ∈ l, key a ≠ k) : binarySearch cmp l.length = none := by
  cases hsearch : binarySearch cmp l.length with
  | none => rfl
  | some i =>
    obtain ⟨hlt, heq⟩ := binarySearch_sound hsearch
    rw [hcmp i hlt, Nat.compare_eq_eq] at heq
    exact absurd heq.symm (h _ (List.getElem_mem hlt))

end Sorted

/-! ## Any search

A library's search promises an index that compares equal whenever there is one; which of them
it promises only when there is one such index. -/

/-- A search that keeps that promise. -/
structure SearchFn where
  find : (Nat → Ordering) → Nat → Option Nat
  sound : ∀ {cmp n i}, Consistent cmp n → find cmp n = some i → i < n ∧ cmp i = .eq
  complete : ∀ {cmp n}, Consistent cmp n → find cmp n = none → ∀ k < n, cmp k ≠ .eq

/-- The loop above is one. -/
def bisect : SearchFn where
  find := binarySearch
  sound _ h := binarySearch_sound h
  complete := binarySearch_eq_none

/-- So is one that takes index `k` whenever it compares equal. -/
def SearchFn.landingOn (k : Nat) : SearchFn where
  find cmp n := if k < n ∧ cmp k = .eq then some k else binarySearch cmp n
  sound := by
    intro cmp n i _ h
    split at h
    · next hk =>
      rw [Option.some.injEq] at h
      subst h
      exact hk
    · exact binarySearch_sound h
  complete := by
    intro cmp n hc h
    split at h
    · simp at h
    · exact binarySearch_eq_none hc h

end NetScanner.Infra
