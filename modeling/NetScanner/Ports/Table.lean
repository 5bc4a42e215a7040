import NetScanner.Infra.Search
import Mathlib.Data.List.Perm.Basic

/-!
# The port table

`src/core/ports.zig`: the embedded table of known ports, sorted by port, some of them
ranked by how often they are found open.

`byRank?` is the compile-time block that lists the ranked ports, most often open first; a
table it refuses does not build. `PortTable` is a table that builds: what `@embedFile`
reads is one value of it.

Ports and ranks are `u16` in the source and `Nat` here; nothing is computed with them.
-/

namespace NetScanner.Ports

open Infra

/-- One record of the table, as far as a scan reads it. -/
structure PortEntry where
  port : Nat
  /-- 1 for the port most often open, 0 when it has no count. -/
  rank : Nat
deriving DecidableEq, Repr

/-- One turn of the loop that fills `order`; none is its `@compileError`. -/
def placeRanked (count : Nat) (order : List Nat) (entry : PortEntry) : Option (List Nat) :=
  if entry.rank = 0 then some order
  else if count < entry.rank ∨ order[entry.rank - 1]? ≠ some 0 then none
  else some (order.set (entry.rank - 1) entry.port)

/-- The entries that have a rank. -/
def rankedEntries (entries : List PortEntry) : List PortEntry :=
  entries.filter fun entry => entry.rank ≠ 0

/-- `by_rank`: a slot for each ranked entry, filled in the order of the table. -/
def byRank? (entries : List PortEntry) : Option (List Nat) :=
  let count := (rankedEntries entries).length
  entries.foldlM (placeRanked count) (List.replicate count 0)

/-- A port table that builds. -/
structure PortTable where
  entries : List PortEntry
  byRank : List Nat
  /-- The generator sorts the records by port. -/
  ascending : entries.Pairwise fun a b => a.port < b.port
  /-- Port 0 is not a port. -/
  port_pos : ∀ entry ∈ entries, 0 < entry.port
  built : byRank? entries = some byRank

namespace PortTable

/-- Compare `port` with the port of entry `i`; past the end there is nothing to read. -/
def comparePort (t : PortTable) (port i : Nat) : Ordering :=
  match t.entries[i]? with
  | none => .lt
  | some entry => compare port entry.port

def indexOf (t : PortTable) (port : Nat) : Option Nat :=
  binarySearch (t.comparePort port) t.entries.length

/-- `port`'s rank; 0 for a port the table does not know. -/
def rank (t : PortTable) (port : Nat) : Nat :=
  match t.indexOf port with
  | none => 0
  | some i =>
    match t.entries[i]? with
    | none => 0
    | some entry => entry.rank

/-! ## The search finds the port's entry -/

theorem consistent_comparePort (t : PortTable) (port : Nat) :
    Consistent (t.comparePort port) t.entries.length := by
  apply consistent_of_sorted (k := port) (t.ascending.imp fun h => Nat.le_of_lt h)
  intro i hi
  simp [comparePort, hi]

/-- No two entries are about one port. -/
theorem entry_unique (t : PortTable) {a b : PortEntry} (ha : a ∈ t.entries) (hb : b ∈ t.entries)
    (h : a.port = b.port) : a = b := by
  obtain ⟨i, hi, rfl⟩ := List.getElem_of_mem ha
  obtain ⟨j, hj, rfl⟩ := List.getElem_of_mem hb
  rcases Nat.lt_trichotomy i j with hij | rfl | hij
  · have := List.pairwise_iff_getElem.mp t.ascending i j hi hj hij
    omega
  · rfl
  · have := List.pairwise_iff_getElem.mp t.ascending j i hj hi hij
    omega

/-- **A port has a rank exactly when the table has a ranked entry for it.** -/
theorem rank_ne_zero_iff (t : PortTable) (port : Nat) :
    t.rank port ≠ 0 ↔ ∃ entry ∈ rankedEntries t.entries, entry.port = port := by
  have hmem : ∀ entry, entry ∈ rankedEntries t.entries ↔ entry ∈ t.entries ∧ entry.rank ≠ 0 := by
    intro entry
    simp [rankedEntries]
  unfold rank
  cases hidx : t.indexOf port with
  | none =>
    have hnone := binarySearch_eq_none (t.consistent_comparePort port) hidx
    constructor
    · intro h
      simp at h
    · rintro ⟨entry, he, rfl⟩
      obtain ⟨i, hi, rfl⟩ := List.getElem_of_mem ((hmem _).mp he).1
      exact absurd (by simp [comparePort, hi]) (hnone i hi)
  | some i =>
    obtain ⟨hi, heq⟩ := binarySearch_sound hidx
    have hport : port = t.entries[i].port := by
      simpa [comparePort, hi] using heq
    have hmemi : t.entries[i] ∈ t.entries := List.getElem_mem hi
    simp only [List.getElem?_eq_getElem hi]
    constructor
    · intro h
      exact ⟨t.entries[i], (hmem _).mpr ⟨hmemi, h⟩, hport.symm⟩
    · rintro ⟨entry, he, hp⟩
      obtain ⟨hin, hrank⟩ := (hmem _).mp he
      rw [← t.entry_unique hin hmemi (by rw [hp, hport])]
      exact hrank

/-! ## The ranked ports, in the order of their ranks -/

/-- Filling a free slot adds one port to those placed. -/
theorem filter_set_perm {order : List Nat} {i port : Nat} (hi : order[i]? = some 0)
    (hport : 0 < port) :
    ((order.set i port).filter (· ≠ 0)).Perm (port :: order.filter (· ≠ 0)) := by
  induction order generalizing i with
  | nil => simp at hi
  | cons x rest ih =>
    cases i with
    | zero =>
      simp only [List.getElem?_cons_zero, Option.some.injEq] at hi
      subst hi
      simp [Nat.pos_iff_ne_zero.mp hport]
    | succ i =>
      rw [List.getElem?_cons_succ] at hi
      rw [List.set_cons_succ, List.filter_cons, List.filter_cons]
      split
      · exact ((ih hi).cons x).trans (List.Perm.swap port x _)
      · exact ih hi

theorem placeRanked_spec {count : Nat} {order order' : List Nat} {entry : PortEntry}
    (hport : 0 < entry.port) (h : placeRanked count order entry = some order') :
    order'.length = order.length ∧
      (order'.filter (· ≠ 0)).Perm
        ((rankedEntries [entry]).map PortEntry.port ++ order.filter (· ≠ 0)) := by
  unfold placeRanked at h
  split at h
  · next hrank =>
    cases h
    simp [rankedEntries, hrank]
  · next hrank =>
    split at h
    · simp at h
    · next hfree =>
      cases h
      have hi : order[entry.rank - 1]? = some 0 := by
        by_contra hne
        exact hfree (Or.inr hne)
      refine ⟨List.length_set, ?_⟩
      simpa [rankedEntries, hrank] using filter_set_perm hi hport

theorem foldlM_placeRanked_spec {count : Nat} {entries : List PortEntry} {order order' : List Nat}
    (hport : ∀ entry ∈ entries, 0 < entry.port)
    (h : entries.foldlM (placeRanked count) order = some order') :
    order'.length = order.length ∧
      (order'.filter (· ≠ 0)).Perm
        ((rankedEntries entries).map PortEntry.port ++ order.filter (· ≠ 0)) := by
  induction entries generalizing order with
  | nil =>
    cases h
    exact ⟨rfl, by simp [rankedEntries]⟩
  | cons entry rest ih =>
    rw [List.foldlM_cons] at h
    obtain ⟨order₁, h1, h2⟩ := Option.bind_eq_some_iff.mp h
    obtain ⟨hlen1, hperm1⟩ := placeRanked_spec (hport entry (by simp)) h1
    obtain ⟨hlen2, hperm2⟩ := ih (fun e he => hport e (by simp [he])) h2
    refine ⟨hlen2.trans hlen1, hperm2.trans ?_⟩
    have hsplit : rankedEntries (entry :: rest) = rankedEntries [entry] ++ rankedEntries rest := by
      rw [rankedEntries, rankedEntries, rankedEntries, ← List.filter_append, List.singleton_append]
    rw [hsplit, List.map_append, List.append_assoc]
    refine (hperm1.append_left _).trans ?_
    rw [← List.append_assoc, ← List.append_assoc]
    exact List.perm_append_comm.append_right _

/-- **`by_rank` lists the ranked ports, each once.** As many slots as ranked entries, and
every entry filled a free one, so none is left free. -/
theorem byRank_perm (t : PortTable) :
    t.byRank.Perm ((rankedEntries t.entries).map PortEntry.port) := by
  obtain ⟨hlen, hperm⟩ := foldlM_placeRanked_spec t.port_pos t.built
  have hempty : (List.replicate (rankedEntries t.entries).length 0).filter (· ≠ 0) = [] := by
    rw [List.filter_eq_nil_iff]
    intro x hx
    simp [List.eq_of_mem_replicate hx]
  rw [hempty, List.append_nil] at hperm
  rw [List.length_replicate] at hlen
  have hfull : t.byRank.filter (· ≠ 0) = t.byRank := by
    refine List.filter_sublist.eq_of_length ?_
    rw [hperm.length_eq, List.length_map, hlen]
  rw [hfull] at hperm
  exact hperm

theorem nodup_byRank (t : PortTable) : t.byRank.Nodup := by
  refine t.byRank_perm.nodup_iff.mpr ?_
  refine List.Nodup.sublist (List.filter_sublist.map PortEntry.port) ?_
  exact (List.pairwise_map.mpr (t.ascending.imp Nat.ne_of_lt))

/-- The search behind `rank` agrees with `by_rank`. -/
theorem mem_byRank_iff (t : PortTable) (port : Nat) : port ∈ t.byRank ↔ t.rank port ≠ 0 := by
  rw [t.byRank_perm.mem_iff, t.rank_ne_zero_iff, List.mem_map]

end PortTable

end NetScanner.Ports
