import NetScanner.Infra.History
import NetScanner.Infra.SwapRemove
import NetScanner.Names.Exchange
import Mathlib.Data.List.Nodup

/-!
# The sockets and the replies of a call

What `udp_exchange_all` has to keep straight, one thing at a time: the log of the calls it makes
(`Fits`), the sockets it holds (`Owns`), the two arrays (`Shaped`) and the replies (`Filed`).
-/

namespace NetScanner.Names.Exchange

open Infra
open scoped List

/-! ## What the log of a call says -/

/-- `sock` is the open socket of a request. -/
def IsOpen (log : List Event) (sock : Option Nat) (request : Nat) : Prop :=
  sock = some request ∧ .opened request ∈ log ∧ .closed sock ∉ log

/-- The packet of a request went to its port. -/
def Asked (c : Call) (log : List Event) (request : Nat) : Prop :=
  ∃ ip x, c.ip = some ip ∧ c.xs[request]? = some x ∧
    .connected (some request) ip x.port ∈ log ∧ .sent (some request) x.req ∈ log

/-- What an event says, after the events before it: every call is about the open socket of the
request it is made for, and a request is settled by the `recv` right before, once. -/
def Fits (c : Call) (before : List Event) : Event → Prop
  | .opened i => i < c.xs.length ∧ .opened i ∉ before
  | .connected sock ip port =>
    ∃ i x, IsOpen before sock i ∧ c.ip = some ip ∧ c.xs[i]? = some x ∧ port = x.port
  | .sent sock req => ∃ i x, IsOpen before sock i ∧ c.xs[i]? = some x ∧ req = x.req
  | .received sock buffer _ => IsOpen before sock buffer ∧ Asked c before buffer
  | .settled i result =>
    result ≠ .wouldBlock ∧ (∃ earlier, before = earlier ++ [.received (some i) i result]) ∧
      ∀ result, .settled i result ∉ before
  | .closed sock => ∃ i, IsOpen before sock i

/-- The sockets opened. -/
def opens (log : List Event) : List (Option Nat) :=
  log.filterMap fun
    | .opened i => some (some i)
    | _ => none

/-- The sockets closed. -/
def closes (log : List Event) : List (Option Nat) :=
  log.filterMap fun
    | .closed sock => some sock
    | _ => none

theorem opens_append (log more : List Event) : opens (log ++ more) = opens log ++ opens more :=
  List.filterMap_append

theorem closes_append (log more : List Event) : closes (log ++ more) = closes log ++ closes more :=
  List.filterMap_append

theorem some_mem_opens {log : List Event} {i : Nat} : some i ∈ opens log ↔ .opened i ∈ log := by
  unfold opens
  rw [List.mem_filterMap]
  constructor
  · rintro ⟨e, he, heq⟩
    cases e <;> simp at heq
    rwa [← heq]
  · intro h
    exact ⟨_, h, rfl⟩

theorem mem_closes {log : List Event} {sock : Option Nat} :
    sock ∈ closes log ↔ .closed sock ∈ log := by
  unfold closes
  rw [List.mem_filterMap]
  constructor
  · rintro ⟨e, he, heq⟩
    cases e <;> simp at heq
    rwa [← heq]
  · intro h
    exact ⟨_, h, rfl⟩

theorem count_closes (log : List Event) (sock : Option Nat) :
    log.count (.closed sock) = (closes log).count sock := by
  induction log with
  | nil => rfl
  | cons e log ih =>
    cases e with
    | closed sock' =>
      show List.count _ (.closed sock' :: log) = List.count _ (sock' :: closes log)
      by_cases h : sock' = sock
      · rw [h, List.count_cons_self, List.count_cons_self, ih]
      · rw [List.count_cons_of_ne (by simpa using h), List.count_cons_of_ne h, ih]
    | _ => exact (List.count_cons_of_ne (by simp)).trans ih

/-! ## The sockets of a call -/

/-- The call holds these sockets, each opened for the request beside it, and has closed all
others it opened. -/
structure Owns (c : Call) (held : List (Nat × Nat)) (k : Core) : Prop where
  table : k.table ~ held
  names : k.table.names.Nodup
  balance : opens k.log ~ held.map (fun p => some p.2) ++ closes k.log
  nodup : (opens k.log).Nodup
  fits : Each (Fits c) k.log

namespace Owns

variable {c : Call} {held held' : List (Nat × Nat)} {k : Core} {fd i : Nat}

theorem perm (h : Owns c held k) (hp : held ~ held') : Owns c held' k where
  table := h.table.trans hp
  names := h.names
  balance := h.balance.trans ((hp.map _).append_right _)
  nodup := h.nodup
  fits := h.fits

/-- The number of a socket that is held finds its request. -/
theorem find (h : Owns c held k) (hm : (fd, i) ∈ held) : k.table.find fd = some i :=
  Handles.find_of_mem h.names (h.table.mem_iff.mpr hm)

theorem isOpen (h : Owns c held k) (hm : (fd, i) ∈ held) : IsOpen k.log (some i) i := by
  have hi : some i ∈ held.map (fun p => some p.2) := List.mem_map.mpr ⟨_, hm, rfl⟩
  refine ⟨rfl, ?_, ?_⟩
  · rw [← some_mem_opens, h.balance.mem_iff]
    exact List.mem_append_left _ hi
  · rw [← mem_closes]
    have hnodup := h.balance.nodup_iff.mp h.nodup
    exact (List.disjoint_of_nodup_append hnodup) hi

/-- Sockets are opened for requests of the call. -/
theorem lt (h : Owns c held k) (hm : (fd, i) ∈ held) : i < c.xs.length := by
  obtain ⟨before, after, hlog⟩ := List.append_of_mem (h.isOpen hm).2.1
  have hfits : Each (Fits c) (before ++ .opened i :: after) := hlog ▸ h.fits
  exact hfits.get.1

/-- An event that leaves the sockets as they are. -/
theorem note (h : Owns c held k) {e : Event} (he : Fits c k.log e) (hopens : opens [e] = [])
    (hcloses : closes [e] = []) : Owns c held (k.note e) where
  table := h.table
  names := h.names
  balance := by
    show opens (k.log ++ [e]) ~ _ ++ closes (k.log ++ [e])
    rw [opens_append, closes_append, hopens, hcloses, List.append_nil, List.append_nil]
    exact h.balance
  nodup := by
    show (opens (k.log ++ [e])).Nodup
    rw [opens_append, hopens, List.append_nil]
    exact h.nodup
  fits := each_concat_iff.mpr ⟨h.fits, he⟩

theorem nsOpen (h : Owns c held k) (hi : i < c.xs.length) (hnew : .opened i ∉ k.log)
    (hfd : fd ∉ k.table.names) : Owns c ((fd, i) :: held) (k.nsOpen fd i) where
  table := h.table.cons _
  names := List.nodup_cons.mpr ⟨hfd, h.names⟩
  balance := by
    show opens (k.log ++ [.opened i]) ~ some i :: held.map (fun p => some p.2) ++
      closes (k.log ++ [.opened i])
    rw [opens_append, closes_append]
    show opens k.log ++ [some i] ~ some i :: held.map (fun p => some p.2) ++ (closes k.log ++ [])
    rw [List.append_nil]
    exact (List.perm_append_singleton _ _).trans (h.balance.cons _)
  nodup := by
    show (opens (k.log ++ [.opened i])).Nodup
    rw [opens_append]
    refine List.nodup_append.mpr ⟨h.nodup, List.nodup_singleton (some i), ?_⟩
    rintro sock hsock _ hlast rfl
    cases List.mem_singleton.mp hlast
    exact hnew (some_mem_opens.mp hsock)
  fits := each_concat_iff.mpr ⟨h.fits, hi, hnew⟩

/-- **Closing a socket that is held.** -/
theorem nsClose (h : Owns c ((fd, i) :: held) k) : Owns c held (k.nsClose fd) := by
  have hm : (fd, i) ∈ (fd, i) :: held := List.mem_cons_self
  have hlog : (k.nsClose fd).log = k.log ++ [.closed (some i)] := by
    rw [← h.find hm]
    rfl
  -- the number finds the request, since no two open sockets share one
  constructor
  · exact ((Handles.cons_close_perm h.names (h.table.mem_iff.mpr hm)).trans h.table).cons_inv
  · exact Handles.nodup_close h.names fd
  · rw [hlog, opens_append, closes_append, ← List.append_assoc]
    show opens k.log ++ [] ~ _ ++ [some i]
    rw [List.append_nil]
    exact h.balance.trans (List.perm_append_singleton _ _).symm
  · rw [hlog, opens_append]
    show (opens k.log ++ []).Nodup
    rw [List.append_nil]
    exact h.nodup
  · rw [hlog]
    exact each_concat_iff.mpr ⟨h.fits, i, h.isOpen hm⟩

end Owns

/-! ## The two arrays -/

/-- The sockets that wait, each with the request beside it. -/
def Core.kept (k : Core) : List (Nat × Nat) := (k.waiting.zip k.owner).take k.pending

/-- What slot `j` of the two arrays has. -/
theorem Core.zip_getElem (k : Core) {j : Nat} (hj : j < (k.waiting.zip k.owner).length) :
    (k.waiting.zip k.owner)[j] = (k.waiting.getD j 0, k.owner.getD j 0) := by
  rw [List.getElem_zip, List.getElem_eq_getD 0, List.getElem_eq_getD 0]

/-- The arrays have room for all requests, and each request has its reply. -/
structure Shaped (c : Call) (k : Core) : Prop where
  waiting : k.waiting.length = nsWaitMax
  owner : k.owner.length = nsWaitMax
  respLen : k.respLen.length = c.xs.length
  resp : k.resp.length = c.xs.length
  pending : k.pending ≤ nsWaitMax

namespace Shaped

variable {c : Call} {k : Core}

theorem zip_length (h : Shaped c k) : (k.waiting.zip k.owner).length = nsWaitMax := by
  rw [List.length_zip, h.waiting, h.owner, Nat.min_self]

theorem kept_length (h : Shaped c k) : k.kept.length = k.pending := by
  rw [Core.kept, List.length_take, h.zip_length, Nat.min_eq_left h.pending]

theorem kept_getElem (h : Shaped c k) {j : Nat} (hj : j < k.kept.length) :
    k.kept[j] = (k.waiting.getD j 0, k.owner.getD j 0) := by
  have hpending : j < k.pending := h.kept_length ▸ hj
  have hzip : j < (k.waiting.zip k.owner).length := h.zip_length.symm ▸ hpending.trans_le h.pending
  calc k.kept[j]
      = (k.waiting.zip k.owner)[j] := List.getElem_take
    _ = (k.waiting.getD j 0, k.owner.getD j 0) := k.zip_getElem hzip

theorem kept_push (h : Shaped c k) (hroom : k.pending < nsWaitMax) (sock i : Nat) :
    (k.push sock i).kept = k.kept ++ [(sock, i)] := by
  have hlt : k.pending < (k.waiting.zip k.owner).length := h.zip_length.symm ▸ hroom
  show ((k.waiting.set k.pending sock).zip (k.owner.set k.pending i)).take (k.pending + 1) = _
  rw [zip_set, List.take_succ_eq_append_getElem (by rwa [List.length_set]), List.take_set,
    List.getElem_set_self, List.set_eq_of_length_le (List.length_take_le _ _)]
  rfl

/-- **The swap takes the same place out of both arrays.** -/
theorem kept_swapOut (h : Shaped c k) {j : Nat} (hj : j < k.pending) :
    (k.swapOut j).kept = swapRemove k.kept j := by
  have hlast : k.pending - 1 < (k.waiting.zip k.owner).length := by
    have hle := h.pending
    rw [h.zip_length]
    omega
  show ((k.waiting.set j (k.waiting.getD (k.pending - 1) 0)).zip
    (k.owner.set j (k.owner.getD (k.pending - 1) 0))).take (k.pending - 1) = _
  rw [zip_set, ← k.zip_getElem hlast, take_set_eq_swapRemove hlast,
    Nat.sub_add_cancel (Nat.zero_lt_of_lt hj)]
  rfl

theorem push (h : Shaped c k) (hroom : k.pending < nsWaitMax) (sock i : Nat) :
    Shaped c (k.push sock i) where
  waiting := List.length_set.trans h.waiting
  owner := List.length_set.trans h.owner
  respLen := h.respLen
  resp := h.resp
  pending := hroom

theorem swapOut (h : Shaped c k) (j : Nat) : Shaped c (k.swapOut j) where
  waiting := List.length_set.trans h.waiting
  owner := List.length_set.trans h.owner
  respLen := h.respLen
  resp := h.resp
  pending := (Nat.sub_le _ _).trans h.pending

theorem settle (h : Shaped c k) (x : Nat) (result : Recv) : Shaped c (k.settle x result) where
  waiting := h.waiting
  owner := h.owner
  respLen := List.length_set.trans h.respLen
  resp := h.resp
  pending := h.pending

theorem read (h : Shaped c k) (j : Nat) (result : Recv) : Shaped c (k.read j result) := by
  cases result with
  | data bytes => exact { h with resp := List.length_set.trans h.resp }
  | wouldBlock => exact { h with }
  | failed => exact { h with }

end Shaped

/-! ## The replies -/

/-- The replies are where they belong, and a settled request has no socket any more. -/
structure Filed (c : Call) (k : Core) : Prop where
  closed : ∀ i result, .settled i result ∈ k.log → .closed (some i) ∈ k.log
  settled : ∀ i result, .settled i result ∈ k.log → k.respLen[i]? = some result.n ∧
    ∀ bytes, result = .data bytes → k.resp[i]? = some bytes
  unsettled : ∀ i < c.xs.length, (∀ result, .settled i result ∉ k.log) → k.respLen[i]? = some (-1)

/-- Events that settle nothing. -/
theorem Filed.grow {c : Call} {k k' : Core} (h : Filed c k) (more : List Event)
    (hlog : k'.log = k.log ++ more) (hmore : ∀ i result, .settled i result ∉ more)
    (hlen : k'.respLen = k.respLen) (hresp : k'.resp = k.resp) : Filed c k' := by
  have hsettled : ∀ i result, .settled i result ∈ k'.log ↔ .settled i result ∈ k.log := by
    intro i result
    rw [hlog, List.mem_append, or_iff_left (hmore i result)]
  constructor
  · intro i result hs
    rw [hlog]
    exact List.mem_append_left _ (h.closed i result ((hsettled i result).mp hs))
  · intro i result hs
    rw [hlen, hresp]
    exact h.settled i result ((hsettled i result).mp hs)
  · intro i hi hnot
    rw [hlen]
    exact h.unsettled i hi fun result hs => hnot result ((hsettled i result).mpr hs)

/-- A request is settled, once, and its socket closed. -/
theorem Filed.settle {c : Call} {k k' : Core} (h : Filed c k) {x : Nat} {result : Recv}
    (hlog : k'.log = k.log ++ [.settled x result, .closed (some x)])
    (hlen : k'.respLen = k.respLen.set x result.n) (hresp : k'.resp = k.resp)
    (hx : x < k.respLen.length) (hopen : .closed (some x) ∉ k.log)
    (hdata : ∀ bytes, result = .data bytes → k.resp[x]? = some bytes) : Filed c k' := by
  have hsettled : ∀ i result', .settled i result' ∈ k'.log →
      .settled i result' ∈ k.log ∧ x ≠ i ∨ i = x ∧ result' = result := by
    intro i result' hs
    rw [hlog] at hs
    rcases List.mem_append.mp hs with hs | hs
    -- a request that was settled before has no socket left to be settled by
    · refine Or.inl ⟨hs, ?_⟩
      rintro rfl
      exact hopen (h.closed _ _ hs)
    · exact Or.inr (by simpa using hs)
  constructor
  · intro i result' hs
    rw [hlog]
    rcases hsettled i result' hs with ⟨hs, -⟩ | ⟨rfl, -⟩
    · exact List.mem_append_left _ (h.closed i result' hs)
    · exact List.mem_append_right _ (by simp)
  · intro i result' hs
    rw [hlen, hresp]
    rcases hsettled i result' hs with ⟨hs, hne⟩ | ⟨rfl, rfl⟩
    · rw [List.getElem?_set_ne hne]
      exact h.settled i result' hs
    · rw [List.getElem?_set_self hx]
      exact ⟨rfl, hdata⟩
  · intro i hi hnot
    have hne : x ≠ i := by
      rintro rfl
      exact hnot result (by simp [hlog])
    rw [hlen, List.getElem?_set_ne hne]
    exact h.unsettled i hi fun result' hs => hnot result' (by simp [hlog, hs])

/-- What `recv` does to the buffers touches no request that is settled. -/
theorem Filed.read {c : Call} {k : Core} (h : Filed c k) {j : Nat} (result : Recv)
    (hopen : .closed (some (k.owner.getD j 0)) ∉ k.log) : Filed c (k.read j result) := by
  cases result with
  | data bytes =>
    have hread : Filed c (k.note (.received (k.table.find (k.waiting.getD j 0)) (k.owner.getD j 0)
        (.data bytes))) := h.grow [_] rfl (by simp) rfl rfl
    refine ⟨hread.closed, fun i result hs => ⟨(hread.settled i result hs).1, ?_⟩,
      hread.unsettled⟩
    intro bytes' heq
    have hne : k.owner.getD j 0 ≠ i := by
      rintro rfl
      have hs : .settled (k.owner.getD j 0) result ∈ k.log := by
        simpa [Core.read, Core.note] using hs
      exact hopen (h.closed _ _ hs)
    show (k.resp.set _ bytes)[i]? = some bytes'
    rw [List.getElem?_set_ne hne]
    exact (hread.settled i result hs).2 bytes' heq
  | wouldBlock => exact h.grow [_] rfl (by simp) rfl rfl
  | failed => exact h.grow [_] rfl (by simp) rfl rfl

end NetScanner.Names.Exchange
