import NetScanner.Ports.Steps
import Mathlib.Data.List.Pairwise

/-!
# The order of the first pass

`src/core/scanner.zig`, `nextFirstPort`, over `src/core/ports.zig`: the ranked ports of the range
in the order of their ranks, then the others in the order of their numbers, each once.

`by_rank` and the search behind `rank` are two ways to read the ranks of one table. Every ranked
entry fills the slot of its rank (`getElem?_byRank`), and there are as many slots as ranked
entries, so the two agree on every port (`rank_eq_idxOf`).
-/

namespace NetScanner.Ports

open Infra

/-! ## The slots of `by_rank` -/

/-- A filled slot keeps its port: only a free one is ever filled. -/
theorem placeRanked_keeps {count : Nat} {order order' : List Nat} {entry : PortEntry} {i port : Nat}
    (h : placeRanked count order entry = some order') (hi : order[i]? = some port)
    (hport : port ≠ 0) : order'[i]? = some port := by
  unfold placeRanked at h
  split at h
  · rw [← Option.some.inj h]
    exact hi
  · split at h
    · simp at h
    · next hfree =>
      rw [← Option.some.inj h, List.getElem?_set_ne]
      · exact hi
      · rintro heq
        rw [heq, hi] at hfree
        simp [hport] at hfree

/-- A ranked entry fills the slot of its rank. -/
theorem placeRanked_places {count : Nat} {order order' : List Nat} {entry : PortEntry}
    (h : placeRanked count order entry = some order') (hrank : entry.rank ≠ 0) :
    order'[entry.rank - 1]? = some entry.port := by
  unfold placeRanked at h
  rw [if_neg hrank] at h
  split at h
  · simp at h
  · next hfree =>
    have hi : order[entry.rank - 1]? = some 0 := by
      by_contra hne
      exact hfree (Or.inr hne)
    obtain ⟨hlt, _⟩ := List.getElem?_eq_some_iff.mp hi
    rw [← Option.some.inj h, List.getElem?_set_self hlt]

theorem foldlM_placeRanked_keeps {count : Nat} {entries : List PortEntry}
    {order order' : List Nat} (h : entries.foldlM (placeRanked count) order = some order')
    {i port : Nat} (hi : order[i]? = some port) (hport : port ≠ 0) : order'[i]? = some port := by
  induction entries generalizing order with
  | nil =>
    rw [← Option.some.inj h]
    exact hi
  | cons entry rest ih =>
    rw [List.foldlM_cons] at h
    obtain ⟨order₁, h1, h2⟩ := Option.bind_eq_some_iff.mp h
    exact ih h2 (placeRanked_keeps h1 hi hport)

theorem foldlM_placeRanked_places {count : Nat} {entries : List PortEntry}
    {order order' : List Nat} (h : entries.foldlM (placeRanked count) order = some order')
    {entry : PortEntry} (he : entry ∈ entries) (hrank : entry.rank ≠ 0) (hport : entry.port ≠ 0) :
    order'[entry.rank - 1]? = some entry.port := by
  induction entries generalizing order with
  | nil => simp at he
  | cons first rest ih =>
    rw [List.foldlM_cons] at h
    obtain ⟨order₁, h1, h2⟩ := Option.bind_eq_some_iff.mp h
    rcases List.mem_cons.mp he with rfl | he
    · exact foldlM_placeRanked_keeps h2 (placeRanked_places h1 hrank) hport
    · exact ih h2 he

namespace PortTable

variable (t : PortTable)

theorem mem_rankedEntries {entries : List PortEntry} {entry : PortEntry} :
    entry ∈ rankedEntries entries ↔ entry ∈ entries ∧ entry.rank ≠ 0 := by
  simp [rankedEntries]

theorem length_byRank : t.byRank.length = (rankedEntries t.entries).length := by
  rw [t.byRank_perm.length_eq, List.length_map]

/-- **Every ranked entry is in the slot of its rank.** -/
theorem getElem?_byRank {entry : PortEntry} (he : entry ∈ rankedEntries t.entries) :
    t.byRank[entry.rank - 1]? = some entry.port := by
  obtain ⟨hmem, hrank⟩ := mem_rankedEntries.mp he
  have hpos := t.port_pos entry hmem
  exact foldlM_placeRanked_places t.built hmem hrank (by omega)

/-! ## The two agree -/

/-- The search finds the rank of an entry's port. -/
theorem rank_entry {entry : PortEntry} (he : entry ∈ t.entries) :
    t.rank entry.port = entry.rank := by
  unfold rank
  cases hidx : t.indexOf entry.port with
  | none =>
    obtain ⟨i, hi, rfl⟩ := List.getElem_of_mem he
    exact absurd (by simp [comparePort, hi])
      (binarySearch_eq_none (t.consistent_comparePort _) hidx i hi)
  | some i =>
    obtain ⟨hi, heq⟩ := binarySearch_sound hidx
    have hport : entry.port = t.entries[i].port := by simpa [comparePort, hi] using heq
    simp only [List.getElem?_eq_getElem hi]
    rw [t.entry_unique he (List.getElem_mem hi) hport]

/-- The port in each slot has the rank of that slot. -/
theorem rank_getElem {i : Nat} (hi : i < t.byRank.length) : t.rank t.byRank[i] = i + 1 := by
  have hmem : t.byRank[i] ∈ (rankedEntries t.entries).map PortEntry.port :=
    t.byRank_perm.mem_iff.mp (List.getElem_mem hi)
  obtain ⟨entry, he, hport⟩ := List.mem_map.mp hmem
  obtain ⟨hentry, hrank⟩ := mem_rankedEntries.mp he
  have hslot := t.getElem?_byRank he
  rw [hport] at hslot
  obtain ⟨hlt, hslot⟩ := List.getElem?_eq_some_iff.mp hslot
  have heq := (t.nodup_byRank.getElem_inj_iff).mp hslot
  rw [← hport, t.rank_entry hentry]
  omega

/-- **The search and `by_rank` agree on every port.** -/
theorem rank_eq_idxOf (port : Nat) :
    t.rank port = if port ∈ t.byRank then t.byRank.idxOf port + 1 else 0 := by
  by_cases hmem : port ∈ t.byRank
  · rw [if_pos hmem]
    have hlt := List.idxOf_lt_length_of_mem hmem
    have hget := t.rank_getElem hlt
    rwa [List.getElem_idxOf hlt] at hget
  · rw [if_neg hmem]
    by_contra hne
    exact hmem ((t.mem_byRank_iff port).mpr hne)

/-- The ranks of the ranked entries run from 1 to their number. -/
theorem ranks_perm : ((rankedEntries t.entries).map PortEntry.rank).Perm
    (List.range' 1 (rankedEntries t.entries).length) := by
  have hmap : t.byRank.map t.rank = List.range' 1 t.byRank.length := by
    apply List.ext_getElem
    · rw [List.length_map, List.length_range']
    · intro i h1 h2
      rw [List.length_map] at h1
      rw [List.getElem_map, List.getElem_range', t.rank_getElem h1]
      omega
  have hranks : ((rankedEntries t.entries).map PortEntry.port).map t.rank =
      (rankedEntries t.entries).map PortEntry.rank := by
    rw [List.map_map]
    refine List.map_congr_left fun entry he => ?_
    exact t.rank_entry (mem_rankedEntries.mp he).1
  rw [← hranks, ← t.length_byRank, ← hmap]
  exact t.byRank_perm.symm.map _

/-- The slots ascend in rank. -/
theorem pairwise_byRank : t.byRank.Pairwise fun a b => t.rank a < t.rank b := by
  rw [List.pairwise_iff_getElem]
  intro i j hi hj hij
  rw [t.rank_getElem hi, t.rank_getElem hj]
  omega

end PortTable

/-! ## The calls of the first pass -/

namespace PortScan

variable (t : PortTable)

/-- The scan after so many calls of `nextFirstPort`. -/
def afterCalls (n : Nat) (s : PortScan) : PortScan := (fun s => (s.nextFirstPort t).2)^[n] s

/-- What the call after these returns. -/
def callReturns (n : Nat) (s : PortScan) : Option Nat := ((s.afterCalls t n).nextFirstPort t).1

/-- One call takes the head of the ports left. -/
theorem nextFirstPort_left (s : PortScan) :
    (s.nextFirstPort t).1 = (s.firstLeft t).head? ∧
      (s.nextFirstPort t).2.firstLeft t = (s.firstLeft t).tail := by
  rcases nextFirstPort_cases t s with ⟨port, nr, np, heq, hleft⟩ | ⟨nr, np, heq, hnil, hnil'⟩
  · rw [heq, hleft]
    exact ⟨rfl, rfl⟩
  · rw [heq, hnil]
    exact ⟨rfl, hnil'⟩

theorem afterCalls_left (n : Nat) (s : PortScan) :
    (s.afterCalls t n).firstLeft t = (s.firstLeft t).drop n := by
  induction n generalizing s with
  | zero => rfl
  | succ n ih =>
    rw [afterCalls, Function.iterate_succ_apply]
    refine (ih _).trans ?_
    rw [(nextFirstPort_left t s).2, List.drop_tail]

theorem callReturns_eq (n : Nat) (s : PortScan) :
    s.callReturns t n = (s.firstLeft t)[n]? := by
  rw [callReturns, (nextFirstPort_left t _).1, afterCalls_left, List.head?_drop]

/-! ## The cursors stay in bounds -/

/-- `next_port` ends one past the range, and `next_ranked` past the slots. -/
structure CursorsWithin (hi : Nat) (s : PortScan) : Prop where
  end_eq : s.end = hi
  nextPort : s.nextPort ≤ hi + 1
  nextRanked : s.nextRanked ≤ t.byRank.length

variable {t} {hi : Nat} {s : PortScan}

theorem CursorsWithin.skipRanked (ranked : List Nat) (h : s.CursorsWithin t hi)
    (hleft : s.nextRanked + ranked.length ≤ t.byRank.length) :
    (s.skipRanked ranked).2.CursorsWithin t hi := by
  induction ranked generalizing s with
  | nil => exact h
  | cons port rest ih =>
    rw [List.length_cons] at hleft
    have hnext : CursorsWithin t hi { s with nextRanked := s.nextRanked + 1 } :=
      ⟨h.end_eq, h.nextPort, by simp only []; omega⟩
    unfold PortScan.skipRanked
    simp only []
    split
    · exact hnext
    · exact ih hnext (by simp only []; omega)

theorem CursorsWithin.skipUnranked (rounds : Nat) (h : s.CursorsWithin t hi) :
    (PortScan.skipUnranked t rounds s).2.CursorsWithin t hi := by
  induction rounds generalizing s with
  | zero => exact h
  | succ rounds ih =>
    unfold PortScan.skipUnranked
    split
    · next hle =>
      rw [h.end_eq] at hle
      have hnext : CursorsWithin t hi { s with nextPort := s.nextPort + 1 } :=
        ⟨h.end_eq, Nat.succ_le_succ hle, h.nextRanked⟩
      simp only []
      split
      · exact hnext
      · exact ih hnext
    · exact h

theorem CursorsWithin.nextFirstPort (h : s.CursorsWithin t hi) :
    (s.nextFirstPort t).2.CursorsWithin t hi := by
  have hle := h.nextRanked
  have hranked := h.skipRanked (t.byRank.drop s.nextRanked) (by rw [List.length_drop]; omega)
  unfold PortScan.nextFirstPort
  split
  · next heq =>
    rw [heq] at hranked
    exact hranked
  · next heq =>
    rw [heq] at hranked
    exact hranked.skipUnranked _

theorem CursorsWithin.afterCalls (h : s.CursorsWithin t hi) (n : Nat) :
    (s.afterCalls t n).CursorsWithin t hi := by
  induction n generalizing s with
  | zero => exact h
  | succ n ih =>
    rw [PortScan.afterCalls, Function.iterate_succ_apply]
    exact ih h.nextFirstPort

end PortScan

/-! ## The documented order -/

/-- `by_rank` and the search behind `rank` are two views of one numbering of the ranked
entries. -/
structure RankedOnce (t : PortTable) : Prop where
  length : t.byRank.length = (rankedEntries t.entries).length
  entry : ∀ e ∈ rankedEntries t.entries, t.byRank[e.rank - 1]? = some e.port
  ranks : ((rankedEntries t.entries).map PortEntry.rank).Perm
    (List.range' 1 (rankedEntries t.entries).length)
  slot : ∀ (i : Nat) (h : i < t.byRank.length), t.rank t.byRank[i] = i + 1
  search : ∀ port, t.rank port = if port ∈ t.byRank then t.byRank.idxOf port + 1 else 0

/-- What the calls of `nextFirstPort` on a range return: `visit n` is the answer of the `n`-th. -/
structure VisitsInOrder (t : PortTable) (lo hi : Nat) (visit : Nat → Option Nat)
    (ranked unranked : List Nat) : Prop where
  /-- First the ranked ports, then the others, then null forever. -/
  visits : ∀ n, visit n = (ranked ++ unranked)[n]?
  /-- The ports of the range, each once. -/
  perm : (ranked ++ unranked).Perm (List.range' lo (hi + 1 - lo))
  isRanked : ∀ port ∈ ranked, t.rank port ≠ 0
  isUnranked : ∀ port ∈ unranked, t.rank port = 0
  ranked : ranked.Pairwise fun a b => t.rank a < t.rank b
  unranked : unranked.Pairwise (· < ·)

/--
**The first pass visits the range as documented**: the ranked ports of the range in ascending
rank, then the others in ascending order, each once, and then nothing; the cursors stay where
their types can hold them.
-/
theorem firstPass_visits_in_order (t : PortTable) (run : Run) (ip : Net.Ip) {lo hi : Nat}
    (hle : lo ≤ hi) (hhi : hi ≤ 65535) (timeoutMs : Option Nat) (tracker : Progress.Tracker) :
    RankedOnce t ∧
      (∃ ranked unranked, VisitsInOrder t lo hi
        (fun n => (PortScan.init run ip lo hi timeoutMs tracker).callReturns t n)
        ranked unranked) ∧
      ∀ n, ((PortScan.init run ip lo hi timeoutMs tracker).afterCalls t n).nextPort ≤ 65536 ∧
        ((PortScan.init run ip lo hi timeoutMs tracker).afterCalls t n).nextRanked ≤
          t.byRank.length := by
  refine ⟨⟨t.length_byRank, fun e he => t.getElem?_byRank he, t.ranks_perm,
    fun i h => t.rank_getElem h, t.rank_eq_idxOf⟩, ?_, fun n => ?_⟩
  · refine ⟨t.byRank.filter (PortScan.init run ip lo hi timeoutMs tracker).inRange,
      PortScan.unrankedFrom t (PortScan.init run ip lo hi timeoutMs tracker) lo, ?_⟩
    have hleft := PortScan.callReturns_eq t (s := PortScan.init run ip lo hi timeoutMs tracker)
    refine ⟨fun n => hleft n, PortScan.firstLeft_perm_range t rfl rfl, ?_, ?_, ?_, ?_⟩
    · intro port hport
      exact (t.mem_byRank_iff port).mp (List.mem_of_mem_filter hport)
    · intro port hport
      simpa using (List.mem_filter.mp hport).2
    · exact t.pairwise_byRank.filter _
    · exact (List.pairwise_lt_range' 1).filter _
  · have hstart : (PortScan.init run ip lo hi timeoutMs tracker).CursorsWithin t hi :=
      ⟨rfl, Nat.le_succ_of_le hle, Nat.zero_le _⟩
    have hcursors := hstart.afterCalls n
    exact ⟨hcursors.nextPort.trans (by omega), hcursors.nextRanked⟩

/-- Two ranked ports and an unranked one of the table, and the last port of all. -/
theorem firstPass_visits_in_order_last_port :
    let t : PortTable :=
      { entries := [⟨22, 2⟩, ⟨53, 0⟩, ⟨65534, 1⟩]
        byRank := [65534, 22]
        ascending := by decide
        port_pos := by decide
        built := by decide }
    let run : Run :=
      { output := { stream := true, json := true }
        cancel := fun _ => false
        memory := fun _ => true }
    let s := PortScan.init run (10, 0, 0, 1) 65533 65535 none {}
    (List.range 5).map (fun n => s.callReturns t n) =
        [some 65534, some 65533, some 65535, none, none] ∧
      RankedOnce t ∧
      (∃ ranked unranked, VisitsInOrder t 65533 65535 (fun n => s.callReturns t n)
        ranked unranked) ∧
      ∀ n, (s.afterCalls t n).nextPort ≤ 65536 ∧
        (s.afterCalls t n).nextRanked ≤ t.byRank.length := by
  intro t run s
  exact ⟨by decide +kernel,
    firstPass_visits_in_order t run (10, 0, 0, 1) (by decide) (by decide) none {}⟩

end NetScanner.Ports
