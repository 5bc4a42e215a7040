import Mathlib.Data.List.Sort
import Mathlib.Data.Finset.Card

/-!
# Stable sorting

A stable sort by a "less than" function that compares a rank, and keeping the first of the
elements that share a key.

`filter_stableSort` is the stability: the elements of one rank keep their order. So after
sorting and keeping the first of each key, what is kept for a key is the first of the unsorted
list (`find?_keepFirst`).
-/

namespace NetScanner.Infra

variable {α β : Type}

/-- A stable sort: elements of which neither is less than the other stay in the order they
came in. -/
def stableSort (lessThan : α → α → Bool) (l : List α) : List α :=
  l.insertionSort fun a b => lessThan b a = false

section Rank

variable {lessThan : α → α → Bool} {rank : α → Nat}

theorem stableSort_perm (l : List α) : (stableSort lessThan l).Perm l := List.perm_insertionSort _ l

theorem stableSort_sorted (hless : ∀ a b, lessThan a b = decide (rank a < rank b)) (l : List α) :
    (stableSort lessThan l).Pairwise fun a b => rank a ≤ rank b := by
  have hle : ∀ a b, lessThan b a = false ↔ rank a ≤ rank b := by
    intro a b
    rw [hless, decide_eq_false_iff_not, Nat.not_lt]
  have : Std.Total fun a b : α => lessThan b a = false := by
    constructor
    intro a b
    rw [hle, hle]
    exact Nat.le_total (rank a) (rank b)
  have : IsTrans α fun a b => lessThan b a = false := by
    constructor
    intro a b c
    rw [hle, hle, hle]
    exact Nat.le_trans
  exact (List.pairwise_insertionSort _ l).imp fun h => (hle _ _).mp h

/-- **The elements of one rank keep their order.** -/
theorem filter_stableSort (hless : ∀ a b, lessThan a b = decide (rank a < rank b)) (l : List α)
    {p : α → Bool} (hp : ∀ a b, p a = true → p b = true → rank a = rank b) :
    (stableSort lessThan l).filter p = l.filter p := by
  have hpair : (l.filter p).Pairwise fun a b => lessThan b a = false := by
    rw [List.pairwise_iff_forall_sublist]
    intro a b hab
    have ha := List.of_mem_filter (hab.subset List.mem_cons_self)
    have hb := List.of_mem_filter (hab.subset (List.mem_cons_of_mem _ List.mem_cons_self))
    rw [hless, decide_eq_false_iff_not, hp a b ha hb]
    exact Nat.lt_irrefl _
  have hsub := (List.sublist_insertionSort hpair List.filter_sublist).filter p
  rw [List.filter_filter] at hsub
  simp only [Bool.and_self] at hsub
  have hperm : (stableSort lessThan l).Perm l := stableSort_perm l
  have hlen := (hperm.filter p).length_eq
  exact (hsub.eq_of_length hlen.symm).symm

end Rank

/-! ## Keeping the first -/

section Keep

variable [DecidableEq β] (key : α → β)

/-- Keep an element unless one with its key was seen. -/
def keepFirst : List β → List α → List α
  | _, [] => []
  | seen, a :: rest =>
    if key a ∈ seen then keepFirst seen rest else a :: keepFirst (key a :: seen) rest

theorem keepFirst_sublist (seen : List β) (l : List α) : (keepFirst key seen l).Sublist l := by
  induction l generalizing seen with
  | nil => exact List.Sublist.slnil
  | cons a rest ih =>
    unfold keepFirst
    split
    · exact (ih seen).cons a
    · exact (ih _).cons_cons a

theorem key_notMem_of_mem_keepFirst {seen : List β} {l : List α} {a : α}
    (h : a ∈ keepFirst key seen l) : key a ∉ seen := by
  induction l generalizing seen with
  | nil => simp [keepFirst] at h
  | cons b rest ih =>
    unfold keepFirst at h
    split at h
    · exact ih h
    · next hb =>
      rcases List.mem_cons.mp h with rfl | h
      · exact hb
      · exact fun hmem => ih h (List.mem_cons_of_mem _ hmem)

/-- **What is kept for a key is the first with it.** -/
theorem find?_keepFirst (seen : List β) (l : List α) {k : β} (hk : k ∉ seen) :
    (keepFirst key seen l).find? (fun a => key a = k) = l.find? fun a => key a = k := by
  induction l generalizing seen with
  | nil => rfl
  | cons a rest ih =>
    unfold keepFirst
    by_cases ha : key a = k
    · rw [if_neg (by rw [ha]; exact hk), List.find?_cons_of_pos (by simpa using ha),
        List.find?_cons_of_pos (by simpa using ha)]
    · rw [List.find?_cons_of_neg (by simpa using ha)]
      split
      · exact ih seen hk
      · rw [List.find?_cons_of_neg (by simpa using ha)]
        apply ih
        rintro (_ | ⟨_, hmem⟩)
        · exact ha rfl
        · exact hk hmem

/-- Sorted by a rank that tells the keys apart, what is kept is strictly ascending. -/
theorem keepFirst_ascending {rank : α → Nat} (hrank : ∀ a b, rank a = rank b → key a = key b)
    {seen : List β} {l : List α} (h : l.Pairwise fun a b => rank a ≤ rank b) :
    (keepFirst key seen l).Pairwise fun a b => rank a < rank b := by
  induction l generalizing seen with
  | nil => exact List.Pairwise.nil
  | cons a rest ih =>
    rw [List.pairwise_cons] at h
    unfold keepFirst
    split
    · exact ih h.2
    · rw [List.pairwise_cons]
      constructor
      · intro b hb
        have hle := h.1 b ((keepFirst_sublist key _ rest).subset hb)
        have hnotMem := key_notMem_of_mem_keepFirst key hb
        have hne : rank a ≠ rank b := by
          intro heq
          rw [← hrank a b heq] at hnotMem
          exact hnotMem List.mem_cons_self
        omega
      · exact ih h.2

end Keep

/-- There are no more elements than ranks. -/
theorem length_le_of_ascending {rank : α → Nat} {l : List α} {bound : Nat}
    (h : l.Pairwise fun a b => rank a < rank b) (hbound : ∀ a ∈ l, rank a < bound) :
    l.length ≤ bound := by
  have hnodup : (l.map rank).Nodup := by
    rw [List.Nodup, List.pairwise_map]
    exact h.imp fun hlt => Nat.ne_of_lt hlt
  have hsub : (l.map rank).toFinset ⊆ Finset.range bound := by
    intro k hk
    rw [List.mem_toFinset, List.mem_map] at hk
    obtain ⟨a, ha, rfl⟩ := hk
    exact Finset.mem_range.mpr (hbound a ha)
  have hcard := Finset.card_le_card hsub
  rwa [List.toFinset_card_of_nodup hnodup, List.length_map, Finset.card_range] at hcard

end NetScanner.Infra
