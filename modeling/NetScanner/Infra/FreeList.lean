import Mathlib.Data.List.Perm.Basic
import Mathlib.Logic.Function.Basic

/-!
# Free lists

A pool of nodes whose free ones are linked through a field of their own (`next`), from a
head. `FreeList next head all lent` says that the nodes on that list and the ones lent out
make up the pool, none of them twice.

* `take` hands out the node at the head: it was not lent out before.
* `give` links a node that comes back in before the head.
-/

namespace NetScanner.Infra

open scoped List

variable {Node : Type*}

/-- What a walk from `head` along `next` meets, in order. -/
def Chain (next : Node → Option Node) : Option Node → List Node → Prop
  | head, [] => head = none
  | head, n :: nodes => head = some n ∧ Chain next (next n) nodes

variable {next next' : Node → Option Node} {head : Option Node}

/-- Only the links of the nodes on the list count. -/
theorem Chain.congr {nodes : List Node} (h : Chain next head nodes)
    (hnext : ∀ n ∈ nodes, next' n = next n) : Chain next' head nodes := by
  induction nodes generalizing head with
  | nil => exact h
  | cons n nodes ih =>
    obtain ⟨hhead, htail⟩ := h
    refine ⟨hhead, ?_⟩
    rw [hnext n List.mem_cons_self]
    exact ih htail fun m hm => hnext m (List.mem_cons_of_mem n hm)

theorem Chain.of_some {nodes : List Node} {n : Node} (h : Chain next (some n) nodes) :
    ∃ rest, nodes = n :: rest ∧ Chain next (next n) rest := by
  cases nodes with
  | nil => cases h
  | cons m rest =>
    obtain ⟨hm, hrest⟩ := h
    cases hm
    exact ⟨rest, rfl, hrest⟩

/-- A node linked in before the head. -/
theorem Chain.push [DecidableEq Node] {nodes : List Node} {n : Node}
    (h : Chain next head nodes) (hn : n ∉ nodes) :
    Chain (Function.update next n head) (some n) (n :: nodes) := by
  refine ⟨rfl, ?_⟩
  rw [Function.update_self]
  refine h.congr fun m hm => Function.update_of_ne ?_ _ _
  rintro rfl
  exact hn hm

/-- The free list and what is lent out make up the pool. -/
def FreeList (next : Node → Option Node) (head : Option Node) (all lent : List Node) : Prop :=
  ∃ free, Chain next head free ∧ free ++ lent ~ all

namespace FreeList

variable {all lent : List Node}

theorem nodup (h : FreeList next head all lent) (hall : all.Nodup) : lent.Nodup := by
  obtain ⟨free, _, hperm⟩ := h
  exact (List.nodup_append.mp (hperm.nodup_iff.mpr hall)).2.1

theorem length_le (h : FreeList next head all lent) : lent.length ≤ all.length := by
  obtain ⟨free, _, hperm⟩ := h
  have hlen := hperm.length_eq
  rw [List.length_append] at hlen
  omega

theorem subset (h : FreeList next head all lent) : lent ⊆ all := by
  obtain ⟨free, _, hperm⟩ := h
  intro n hn
  exact hperm.subset (List.mem_append_right free hn)

/-- **The node at the head is free**, and becomes one that is lent out. -/
theorem take {n : Node} (h : FreeList next (some n) all lent) (hall : all.Nodup) :
    n ∈ all ∧ n ∉ lent ∧ FreeList next (next n) all (lent ++ [n]) := by
  obtain ⟨free, hchain, hperm⟩ := h
  obtain ⟨rest, rfl, hrest⟩ := hchain.of_some
  have hnodup := hperm.nodup_iff.mpr hall
  rw [List.cons_append, List.nodup_cons] at hnodup
  refine ⟨hperm.subset (by simp), fun hn => hnodup.1 (List.mem_append_right rest hn), rest,
    hrest, ?_⟩
  calc rest ++ (lent ++ [n]) = (rest ++ lent) ++ [n] := (List.append_assoc _ _ _).symm
    _ ~ n :: (rest ++ lent) := List.perm_append_singleton _ _
    _ ~ all := hperm

variable [DecidableEq Node]

/-- **A node that comes back goes to the head**, and nothing else moves. -/
theorem give {k : Nat} (h : FreeList next head all lent) (hall : all.Nodup)
    (hk : k < lent.length) :
    FreeList (Function.update next lent[k] head) (some lent[k]) all (lent.eraseIdx k) := by
  obtain ⟨free, hchain, hperm⟩ := h
  have hnodup := hperm.nodup_iff.mpr hall
  have hnotfree : lent[k] ∉ free := fun hmem =>
    (List.nodup_append.mp hnodup).2.2 _ hmem _ (List.getElem_mem hk) rfl
  refine ⟨lent[k] :: free, hchain.push hnotfree, ?_⟩
  calc lent[k] :: free ++ lent.eraseIdx k
      ~ free ++ lent[k] :: lent.eraseIdx k := List.perm_middle.symm
    _ ~ free ++ lent := (List.getElem_cons_eraseIdx_perm hk).append_left free
    _ ~ all := hperm

end FreeList

end NetScanner.Infra
