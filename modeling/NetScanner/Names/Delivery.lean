import NetScanner.Names.Sockets

/-!
# Each reply goes to its own request

`src/c/resolver.c`, `udp_exchange_all`: `Inv` is the invariant of a call, `rank` how far it still
has to go, and `udpExchangeAll_delivers` what every call does, whatever the system answers.
-/

namespace NetScanner.Names.Exchange

open Infra Net
open scoped List

/-! ## The invariant -/

/-- The sockets the call holds, each with the request it was opened for. -/
def Core.held (k : Core) : Pc → List (Nat × Nat)
  | .connecting i sock => (sock, i) :: k.kept
  | .sending i sock => (sock, i) :: k.kept
  | .closing j => k.kept.drop j
  | .returned => []
  | _ => k.kept

/-- Of the requests before `next` only, no more sockets wait than `i`. -/
structure Opened (c : Call) (k : Core) (i next : Nat) : Prop where
  ip : ∃ ip, c.ip = some ip
  room : c.xs.length ≤ nsWaitMax
  pending : k.pending ≤ i
  before : ∀ request, .opened request ∈ k.log → request < next

/-- What is known at a program point. -/
def Placed (c : Call) (k : Core) : Pc → Prop
  | .start => False
  | .opening i => i ≤ c.xs.length ∧ Opened c k i i
  | .connecting i _ => i < c.xs.length ∧ Opened c k i (i + 1)
  | .sending i _ => i < c.xs.length ∧ Opened c k i (i + 1) ∧
    ∃ ip x, c.ip = some ip ∧ c.xs[i]? = some x ∧ .connected (some i) ip x.port ∈ k.log
  | .draining _ left => left ≤ k.pending
  | .closing j => j ≤ k.pending
  | _ => True

/-- What holds once the arguments have been checked. -/
structure Inv (c : Call) (k : Core) (pc : Pc) : Prop where
  owns : Owns c (k.held pc) k
  shaped : Shaped c k
  asked : ∀ p ∈ k.kept, Asked c k.log p.2
  filed : Filed c k
  placed : Placed c k pc

theorem Asked.mono {c : Call} {log log' : List Event} {i : Nat} (h : Asked c log i)
    (hlog : log ⊆ log') : Asked c log' i := by
  obtain ⟨ip, x, hip, hx, hconnected, hsent⟩ := h
  exact ⟨ip, x, hip, hx, hlog hconnected, hlog hsent⟩

namespace Inv

variable {c : Call} {k : Core}

/-- On to a place where the same sockets are held. -/
theorem goto {pc pc' : Pc} (h : Inv c k pc) (hheld : k.held pc' = k.held pc)
    (hplaced : Placed c k pc') : Inv c k pc' where
  owns := hheld ▸ h.owns
  shaped := h.shaped
  asked := h.asked
  filed := h.filed
  placed := hplaced

/-- Something that does not concern the arrays happened. -/
theorem grow {pc pc' : Pc} (h : Inv c k pc) {table : Handles Nat} {more : List Event}
    (howns : Owns c (k.held pc') { k with table, log := k.log ++ more })
    (hmore : ∀ i result, .settled i result ∉ more)
    (hplaced : Placed c { k with table, log := k.log ++ more } pc') :
    Inv c { k with table, log := k.log ++ more } pc' where
  owns := by
    cases pc' <;> exact howns
  shaped := { h.shaped with }
  asked := fun p hp => (h.asked p hp).mono (List.subset_append_left _ _)
  filed := h.filed.grow more rfl hmore rfl rfl
  placed := hplaced

theorem opening_none {i : Nat} (h : Inv c k (.opening i)) (hi : i < c.xs.length) :
    Inv c k (.opening (i + 1)) := by
  obtain ⟨-, hopened⟩ := h.placed
  refine h.goto rfl ⟨hi, hopened.ip, hopened.room, hopened.pending.trans (Nat.le_succ i), ?_⟩
  exact fun request hr => (hopened.before request hr).trans (Nat.lt_succ_self i)

theorem opening_some {i fd : Nat} (h : Inv c k (.opening i)) (hi : i < c.xs.length)
    (hfd : fd ∉ k.table.names) : Inv c (k.nsOpen fd i) (.connecting i fd) := by
  obtain ⟨-, hopened⟩ := h.placed
  have hnew : .opened i ∉ k.log := fun hm => Nat.lt_irrefl i (hopened.before i hm)
  refine h.grow (h.owns.nsOpen hi hnew hfd) (by simp)
    ⟨hi, hopened.ip, hopened.room, hopened.pending, fun request hr => ?_⟩
  rcases List.mem_append.mp hr with hr | hr
  · exact (hopened.before request hr).trans (Nat.lt_succ_self i)
  · cases List.mem_singleton.mp hr
    exact Nat.lt_succ_self i

theorem connecting_ok {i sock : Nat} (h : Inv c k (.connecting i sock)) {ip : Ip}
    (hip : c.ip = some ip) {x : UdpExchange} (hx : c.xs[i]? = some x) :
    Inv c (k.note (.connected (k.table.find sock) ip x.port)) (.sending i sock) := by
  obtain ⟨hi, hopened⟩ := h.placed
  have hm : (sock, i) ∈ k.held (.connecting i sock) := List.mem_cons_self
  have hfits : Fits c k.log (.connected (some i) ip x.port) :=
    ⟨i, x, h.owns.isOpen hm, hip, hx, rfl⟩
  rw [h.owns.find hm]
  refine h.grow (h.owns.note hfits rfl rfl) (by simp) ⟨hi, ?_, ip, x, hip, hx, ?_⟩
  · refine ⟨hopened.ip, hopened.room, hopened.pending, fun request hr => ?_⟩
    exact hopened.before request (by simpa using hr)
  · exact List.mem_append_right _ (List.mem_singleton_self _)

/-- A socket that was not connected, or whose packet did not go out, is closed. -/
theorem give_up {pc : Pc} {i sock : Nat} (h : Inv c k pc) (hheld : k.held pc = (sock, i) :: k.kept)
    (hi : i < c.xs.length) (hopened : Opened c k i (i + 1)) :
    Inv c (k.nsClose sock) (.opening (i + 1)) := by
  refine h.grow (hheld ▸ h.owns).nsClose (by simp) ⟨hi, hopened.ip, hopened.room, ?_, ?_⟩
  · exact hopened.pending.trans (Nat.le_succ i)
  · exact fun request hr => hopened.before request (by simpa using hr)

theorem sending_ok {i sock : Nat} (h : Inv c k (.sending i sock)) {x : UdpExchange}
    (hx : c.xs[i]? = some x) :
    Inv c ((k.note (.sent (k.table.find sock) x.req)).push sock i) (.opening (i + 1)) := by
  obtain ⟨hi, hopened, ip, x', hip, hx', hconnected⟩ := h.placed
  have hm : (sock, i) ∈ k.held (.sending i sock) := List.mem_cons_self
  have hroom : k.pending < nsWaitMax := (hopened.pending.trans_lt hi).trans_le hopened.room
  -- the socket goes to the end of both arrays, with its request
  have hshaped : Shaped c (k.note (.sent (some i) x.req)) := { h.shaped with }
  have hkept := hshaped.kept_push hroom sock i
  have howns := h.owns.note (e := .sent (some i) x.req) ⟨i, x, h.owns.isOpen hm, hx, rfl⟩ rfl rfl
  cases hx'.symm.trans hx
  rw [h.owns.find hm]
  constructor
  · show Owns c (Core.kept _) _
    rw [hkept]
    exact { howns.perm (List.perm_append_singleton _ _).symm with }
  · exact hshaped.push hroom sock i
  · intro p hp
    rw [hkept] at hp
    rcases List.mem_append.mp hp with hp | hp
    · exact (h.asked p hp).mono (List.subset_append_left _ _)
    · cases List.mem_singleton.mp hp
      exact ⟨ip, x, hip, hx, List.mem_append_left _ hconnected,
        List.mem_append_right _ (List.mem_singleton_self _)⟩
  · exact h.filed.grow [_] rfl (by simp) rfl rfl
  · refine ⟨hi, hopened.ip, hopened.room, Nat.succ_le_succ hopened.pending, fun request hr => ?_⟩
    exact hopened.before request (by simpa [Core.push, Core.note] using hr)

/-! ## The backwards loop -/

/-- The socket in slot `j` and the request beside it. -/
theorem slot {pc : Pc} (h : Inv c k pc) {j : Nat} (hj : j < k.pending) :
    ∃ hlt : j < k.kept.length, k.kept[j] = (k.waiting.getD j 0, k.owner.getD j 0) := by
  have hlt : j < k.kept.length := h.shaped.kept_length.symm ▸ hj
  exact ⟨hlt, h.shaped.kept_getElem hlt⟩

theorem mem_kept {pc : Pc} (h : Inv c k pc) {j : Nat} (hj : j < k.pending) :
    (k.waiting.getD j 0, k.owner.getD j 0) ∈ k.kept := by
  obtain ⟨hlt, heq⟩ := h.slot hj
  exact heq ▸ List.getElem_mem hlt

/-- `recv` on a socket that waits. -/
theorem read {ready : List Bool} {j : Nat} (h : Inv c k (.draining ready (j + 1)))
    (result : Recv) : Inv c (k.read j result) (.draining ready j) := by
  have hj : j < k.pending := h.placed
  have hm := h.mem_kept hj
  have hopen : IsOpen k.log (some (k.owner.getD j 0)) (k.owner.getD j 0) := h.owns.isOpen hm
  have hfits : Fits c k.log (.received (k.table.find (k.waiting.getD j 0)) (k.owner.getD j 0)
      result) := by
    rw [h.owns.find hm]
    exact ⟨hopen, h.asked _ hm⟩
  have hnote : Inv c (k.note (.received (k.table.find (k.waiting.getD j 0)) (k.owner.getD j 0)
      result)) (.draining ready j) :=
    h.grow (h.owns.note hfits rfl rfl) (by simp) (Nat.le_of_lt hj)
  cases result with
  | data bytes =>
    exact ⟨{ hnote.owns with }, h.shaped.read j _, hnote.asked, h.filed.read _ hopen.2.2,
      hnote.placed⟩
  | wouldBlock => exact hnote
  | failed => exact hnote

/-- **A reply or a refusal settles the request, and its socket is closed.** -/
theorem settle {ready : List Bool} {j : Nat} (h : Inv c k (.draining ready j))
    (hj : j < k.pending) {result : Recv} (hresult : result ≠ .wouldBlock) {earlier : List Event}
    (hlast : k.log = earlier ++
      [.received (some (k.owner.getD j 0)) (k.owner.getD j 0) result])
    (hresp : ∀ bytes, result = .data bytes → k.resp[k.owner.getD j 0]? = some bytes) :
    Inv c (((k.settle (k.owner.getD j 0) result).nsClose (k.waiting.getD j 0)).swapOut j)
      (.draining ready j) := by
  have hm := h.mem_kept hj
  obtain ⟨hlt, hslot⟩ := h.slot hj
  have hopen : IsOpen k.log (some (k.owner.getD j 0)) (k.owner.getD j 0) := h.owns.isOpen hm
  have hx : k.owner.getD j 0 < k.respLen.length := h.shaped.respLen.symm ▸ h.owns.lt hm
  have hfits : Fits c k.log (.settled (k.owner.getD j 0) result) :=
    ⟨hresult, ⟨earlier, hlast⟩, fun result' hs => hopen.2.2 (h.filed.closed _ result' hs)⟩
  have hsettle : Owns c k.kept (k.settle (k.owner.getD j 0) result) :=
    { h.owns.note hfits rfl rfl with }
  -- closing takes the pair in slot `j` out of what is held, and the swap out of the arrays
  have hperm : k.kept ~ (k.waiting.getD j 0, k.owner.getD j 0) :: swapRemove k.kept j :=
    (hslot ▸ cons_swapRemove_perm hlt).symm
  have howns := (hsettle.perm hperm).nsClose
  have hshaped := h.shaped.settle (k.owner.getD j 0) result
  have hclosed : Shaped c ((k.settle (k.owner.getD j 0) result).nsClose (k.waiting.getD j 0)) :=
    { hshaped with }
  have hkept := hclosed.kept_swapOut hj
  have hlog : (((k.settle (k.owner.getD j 0) result).nsClose (k.waiting.getD j 0)).swapOut j).log =
      k.log ++ [.settled (k.owner.getD j 0) result, .closed (some (k.owner.getD j 0))] := by
    rw [← h.owns.find hm]
    exact List.append_assoc _ _ _
  constructor
  · show Owns c (Core.kept _) _
    rw [hkept]
    exact { howns with }
  · exact hclosed.swapOut j
  · intro p hp
    rw [hkept] at hp
    rw [hlog]
    have hp : p ∈ k.kept := hperm.mem_iff.mpr (List.mem_cons_of_mem _ hp)
    exact (h.asked p hp).mono (List.subset_append_left _ _)
  · exact h.filed.settle hlog rfl rfl hx hopen.2.2 hresp
  · exact Nat.le_sub_one_of_lt hj

theorem drain {ready : List Bool} {j : Nat} (h : Inv c k (.draining ready (j + 1)))
    (result : Recv) : Inv c (k.drain j result) (.draining ready j) := by
  have hj : j < k.pending := h.placed
  have hm := h.mem_kept hj
  have hread := h.read result
  unfold Core.drain
  split
  · exact hread
  · next hresult =>
    have hlog : (k.read j result).log = k.log ++
        [.received (some (k.owner.getD j 0)) (k.owner.getD j 0) result] := by
      rw [← h.owns.find hm]
      cases result <;> rfl
    -- the request whose buffer was written is the one whose socket was read
    have hresp : ∀ bytes, result = .data bytes →
        (k.read j result).resp[k.owner.getD j 0]? = some bytes := by
      rintro bytes rfl
      exact List.getElem?_set_self (h.shaped.resp.symm ▸ h.owns.lt hm)
    cases result with
    | data bytes => exact hread.settle hj hresult hlog hresp
    | wouldBlock => exact absurd rfl hresult
    | failed => exact hread.settle hj hresult hlog hresp

/-- A socket that still waits is closed. -/
theorem closing {j : Nat} (h : Inv c k (.closing j)) (hj : j < k.pending) :
    Inv c (k.nsClose (k.waiting.getD j 0)) (.closing (j + 1)) := by
  obtain ⟨hlt, hslot⟩ := h.slot hj
  have hheld : k.held (.closing j) =
      (k.waiting.getD j 0, k.owner.getD j 0) :: k.kept.drop (j + 1) := by
    rw [← hslot]
    exact List.drop_eq_getElem_cons hlt
  exact h.grow (hheld ▸ h.owns).nsClose (by simp) hj

/-- Nothing has been opened yet. -/
theorem fresh {pc : Pc} (hshaped : Shaped c k) (hfiled : Filed c k) (hpending : k.pending = 0)
    (htable : k.table = []) (hlog : k.log = []) (hheld : k.held pc = [])
    (hplaced : Placed c k pc) : Inv c k pc where
  owns := by
    constructor
    · rw [htable, hheld]
    · rw [htable]
      exact List.nodup_nil
    · rw [hlog, hheld]
      exact List.Perm.refl _
    · rw [hlog]
      exact List.nodup_nil
    · rw [hlog]
      exact each_nil _
  shaped := hshaped
  asked := by simp [Core.kept, hpending]
  filed := hfiled
  placed := hplaced

/-- The arguments are refused, or the sockets are opened. -/
theorem begin {s₀ : State} (h : (udpExchangeAll c).init s₀) :
    Inv c (s₀.begin c).toCore (s₀.begin c).pc := by
  obtain ⟨-, hwaiting, howner, hpending, hrespLen, hresp, htable, hlog⟩ := h
  have hle : s₀.pending ≤ nsWaitMax := hpending.symm ▸ Nat.zero_le _
  unfold Core.begin
  split
  · next hnone =>
    refine fresh ⟨hwaiting, howner, hrespLen, hresp, hle⟩ ?_ hpending htable hlog rfl trivial
    refine ⟨by simp [Core.goto, hlog], by simp [Core.goto, hlog], fun i hi => absurd hi ?_⟩
    rw [hnone]
    exact Nat.not_lt_zero i
  · simp only []
    have hshaped : Shaped c { s₀.toCore with respLen := s₀.respLen.map fun _ => -1 } :=
      ⟨hwaiting, howner, (List.length_map _).trans hrespLen, hresp, hle⟩
    have hfiled : Filed c { s₀.toCore with respLen := s₀.respLen.map fun _ => -1 } := by
      refine ⟨by simp [hlog], by simp [hlog], fun i hi _ => ?_⟩
      rw [← hrespLen] at hi
      show (s₀.respLen.map _)[i]? = _
      rw [List.getElem?_map, List.getElem?_eq_getElem hi]
      rfl
    split
    · exact fresh hshaped hfiled hpending htable hlog rfl trivial
    · next hargs =>
      rw [not_or, not_or, Nat.not_lt] at hargs
      have hip : ∃ ip, c.ip = some ip := Option.ne_none_iff_exists'.mp hargs.1
      refine fresh hshaped hfiled hpending htable hlog ?_ ⟨Nat.zero_le _, hip, hargs.2.1, ?_, ?_⟩
      · show List.take s₀.pending _ = []
        rw [hpending, List.take_zero]
      · exact Nat.le_of_eq hpending
      · simp [Core.goto, hlog]

end Inv

/-- **Every step keeps the invariant.** -/
theorem moves_inv {c : Call} {k : Core} {pc : Pc} {answer : Answer} {s' : State} (h : Inv c k pc)
    (hmoves : Moves c k pc answer s') : Inv c s'.toCore s'.pc := by
  cases hmoves with
  | begin => exact h.placed.elim
  | allOpened => exact h.goto rfl trivial
  | noSocket hi => exact h.opening_none hi
  | socket hi hfd => exact h.opening_some hi hfd
  | connected hip hx => exact h.connecting_ok hip hx
  | notConnected => exact h.give_up rfl h.placed.1 h.placed.2
  | sent hx => exact h.sending_ok hx
  | notSent => exact h.give_up rfl h.placed.1 h.placed.2.1
  | setDeadline => exact ⟨{ h.owns with }, { h.shaped with }, h.asked, { h.filed with }, trivial⟩
  | allSettled => exact h.goto rfl (Nat.zero_le _)
  | timeIsUp => exact h.goto rfl (Nat.zero_le _)
  | wait => exact h.goto rfl trivial
  | interrupted => exact h.goto rfl trivial
  | noneReady => exact h.goto rfl (Nat.zero_le _)
  | someReady => exact h.goto rfl (Nat.le_refl _)
  | allDrained => exact h.goto rfl trivial
  | notReady => exact h.goto rfl (Nat.le_of_succ_le h.placed)
  | drain => exact h.drain _
  | close hj => exact h.closing hj
  | @allClosed j hj =>
    refine h.goto ?_ trivial
    show [] = k.kept.drop j
    rw [List.drop_eq_nil_of_le (h.shaped.kept_length.trans_le (Nat.not_lt.mp hj))]

/-! ## The way to the end -/

/-- The most steps a call can take from here without a wait. -/
def rank (count pending : Nat) : Pc → Nat
  | .start => 3 * count + 13
  | .opening i => 3 * (count - i) + 12
  | .connecting i _ => 3 * (count - i) + 11
  | .sending i _ => 3 * (count - i) + 10
  | .setDeadline => 11
  | .waiting => pending + 2
  | .polling _ _ => pending + 1
  | .draining _ left => left + pending + 3
  | .closing j => pending - j + 1
  | .returned => 0

/-- How many steps a wait may lead to. -/
def cost (answer : Answer) : Nat := if answer.isWait then 11 else 0

theorem drain_pending_le (k : Core) (j : Nat) (result : Recv) :
    (k.drain j result).pending ≤ k.pending := by
  cases result with
  | data bytes => exact Nat.sub_le _ _
  | wouldBlock => exact Nat.le_refl _
  | failed => exact Nat.sub_le _ _

theorem rank_moves {c : Call} {k : Core} {pc : Pc} {answer : Answer} {s' : State}
    (h : k.pending ≤ nsWaitMax) (hmoves : Moves c k pc answer s') :
    rank c.xs.length s'.pending s'.pc + 1 ≤ rank c.xs.length k.pending pc + cost answer := by
  unfold nsWaitMax at h
  cases hmoves with
  | begin =>
    unfold Core.begin
    simp only []
    split
    · simp only [rank, Core.goto]
      omega
    · split
      · simp only [rank, Core.goto]
        omega
      · simp only [rank, Core.goto]
        omega
  | @drain ready j result =>
    have hle := drain_pending_le k j result
    simp only [rank, Core.goto]
    omega
  -- the request is one of the call's, so the next one is nearer to the end
  | connected _ hx | notConnected hx | sent hx | notSent hx =>
    have hi := (List.getElem?_eq_some_iff.mp hx).1
    simp only [rank, Core.goto]
    omega
  | interrupted hwait | noneReady hwait | someReady hwait =>
    simp only [rank, Core.goto, cost, hwait, if_true]
    omega
  | _ =>
    simp only [rank, Core.goto, Core.nsClose]
    omega

/-! ## Whole calls -/

theorem reachable_inv {c : Call} {s : State} (h : (udpExchangeAll c).Reachable s) :
    (udpExchangeAll c).init s ∨ Inv c s.toCore s.pc := by
  refine h.invariant (I := fun s => (udpExchangeAll c).init s ∨ Inv c s.toCore s.pc) ?_ ?_
  · intro s hs
    exact Or.inl hs
  · rintro s answer s' - hs hstep
    right
    have hmoves := step_moves hstep
    rcases hs with hinit | hinv
    · rw [hinit.1] at hmoves
      cases hmoves
      exact Inv.begin hinit
    · exact moves_inv hinv hmoves

/-- **No call gets stuck.** -/
theorem exists_step {c : Call} {s : State} (h : (udpExchangeAll c).Reachable s)
    (hpc : s.pc ≠ .returned) : ∃ answer s', step c s answer = some s' := by
  have hinv := reachable_inv h
  unfold step
  cases hs : s.pc with
  | start => exact ⟨.go, _, rfl⟩
  | opening i =>
    by_cases hi : i < c.xs.length
    · exact ⟨.socket none, _, if_pos hi⟩
    · exact ⟨.go, _, if_neg hi⟩
  | connecting i sock =>
    rcases hinv with hinit | hinv
    · exact absurd (hs.symm.trans hinit.1) (by simp)
    · rw [hs] at hinv
      obtain ⟨hi, hopened⟩ := hinv.placed
      obtain ⟨ip, hip⟩ := hopened.ip
      refine ⟨.connect true, ?_⟩
      simp [hip, List.getElem?_eq_getElem hi]
  | sending i sock =>
    rcases hinv with hinit | hinv
    · exact absurd (hs.symm.trans hinit.1) (by simp)
    · rw [hs] at hinv
      obtain ⟨-, -, ip, x, hip, hx, -⟩ := hinv.placed
      by_cases hn : 0 = toInt x.req.length
      · exact ⟨.send 0, _, Option.bind_eq_some_iff.mpr ⟨x, hx, if_pos hn⟩⟩
      · exact ⟨.send 0, _, Option.bind_eq_some_iff.mpr ⟨x, hx, if_neg hn⟩⟩
  | setDeadline => exact ⟨.clock 0, _, rfl⟩
  | waiting =>
    by_cases hpending : s.pending > 0
    · refine ⟨.clock s.deadline, ?_⟩
      simp [hpending]
    · exact ⟨.go, _, if_neg hpending⟩
  | polling timeoutMs left =>
    cases hos : c.os with
    | posix =>
      refine ⟨.poll 0 [] false 0, ?_⟩
      simp [nsWaitAny]
    | windows =>
      refine ⟨.select 0 [], ?_⟩
      simp [nsWaitAny]
  | draining ready left =>
    cases left with
    | zero => exact ⟨.go, _, rfl⟩
    | succ j =>
      by_cases hready : ready.getD j false = true
      · exact ⟨.recv .failed, _, if_pos ⟨hready, trivial⟩⟩
      · exact ⟨.go, _, if_neg hready⟩
  | closing j =>
    by_cases hj : j < s.pending
    · exact ⟨.go, _, if_pos hj⟩
    · exact ⟨.go, _, if_neg hj⟩
  | returned => exact absurd hs hpc

/-- The waits among the answers. -/
def waits (answers : List Answer) : Nat := answers.countP Answer.isWait

/-- **A call is over soon after its last wait.** -/
theorem length_le {c : Call} {s₀ s : State} {answers : List Answer}
    (h₀ : (udpExchangeAll c).init s₀) (hrun : (udpExchangeAll c).exec s₀ answers = some s) :
    answers.length + rank c.xs.length s.pending s.pc ≤
      3 * c.xs.length + 13 + 11 * waits answers := by
  refine Lts.exec_induction (T := udpExchangeAll c) (P := fun answers s =>
    answers.length + rank c.xs.length s.pending s.pc ≤
      3 * c.xs.length + 13 + 11 * waits answers) ?_ ?_ hrun
  · rw [h₀.1]
    exact Nat.le_of_eq (Nat.zero_add _)
  · intro answers answer s s' hr ih hstep
    have hpending : s.pending ≤ nsWaitMax := by
      rcases reachable_inv ⟨s₀, answers, h₀, hr⟩ with hinit | hinv
      · rw [hinit.2.2.2.1]
        exact Nat.zero_le _
      · exact hinv.shaped.pending
    have hrank := rank_moves hpending (step_moves hstep)
    have hcost : 11 * waits (answers ++ [answer]) = 11 * waits answers + cost answer := by
      rw [waits, List.countP_append, List.countP_singleton, Nat.mul_add, cost]
      cases answer.isWait <;> rfl
    rw [List.length_append, List.length_singleton, hcost]
    omega

/-- How many of the sockets that were left have been closed. -/
def Pc.closed : Pc → Nat
  | .closing j => j
  | _ => 0

/-- What a call does with its sockets and its replies. -/
structure Delivered (c : Call) (s : State) : Prop where
  /-- Every call is about an open socket, and settles the request the socket was opened for. -/
  fits : Each (Fits c) s.log
  settled : ∀ i result, .settled i result ∈ s.log → s.respLen[i]? = some result.n ∧
    ∀ bytes, result = .data bytes → s.resp[i]? = some bytes
  unsettled : s.pc ≠ .start → ∀ i < c.xs.length, (∀ result, .settled i result ∉ s.log) →
    s.respLen[i]? = some (-1)
  /-- `waiting[j]` and `owner[j]` name the same request. -/
  parallel : s.pc ≠ .returned → ∀ j, s.pc.closed ≤ j → j < s.pending → ∃ sock i,
    s.waiting[j]? = some sock ∧ s.owner[j]? = some i ∧ s.table.find sock = some i
  closed : s.pc = .returned → ∀ i, .opened i ∈ s.log → s.log.count (.closed (some i)) = 1

/-- A socket that waits is held, as long as it has not been closed at the end. -/
theorem Core.kept_mem_held {k : Core} {pc : Pc} (hpc : pc ≠ .returned) {j : Nat}
    (hclosed : pc.closed ≤ j) (hj : j < k.kept.length) : k.kept[j] ∈ k.held pc := by
  cases pc with
  | returned => exact absurd rfl hpc
  | closing n =>
    have hn : n ≤ j := hclosed
    refine List.mem_iff_getElem?.mpr ⟨j - n, ?_⟩
    show (k.kept.drop n)[j - n]? = _
    rw [List.getElem?_drop, Nat.add_sub_cancel' hn, List.getElem?_eq_getElem hj]
  | connecting i sock => exact List.mem_cons_of_mem _ (List.getElem_mem hj)
  | sending i sock => exact List.mem_cons_of_mem _ (List.getElem_mem hj)
  | _ => exact List.getElem_mem hj

theorem delivered_init {c : Call} {s : State} (h : (udpExchangeAll c).init s) : Delivered c s := by
  obtain ⟨hpc, -, -, hpending, -, -, -, hlog⟩ := h
  constructor
  · rw [hlog]
    exact each_nil _
  · simp [hlog]
  · exact fun hne => absurd hpc hne
  · simp [hpending]
  · simp [hpc]

theorem Inv.delivered {c : Call} {s : State} (h : Inv c s.toCore s.pc) : Delivered c s where
  fits := h.owns.fits
  settled := h.filed.settled
  unsettled := fun _ => h.filed.unsettled
  parallel := by
    intro hpc j hclosed hj
    obtain ⟨hlt, hslot⟩ := h.slot hj
    have hm : (s.waiting.getD j 0, s.owner.getD j 0) ∈ s.held s.pc := by
      rw [← hslot]
      exact Core.kept_mem_held hpc hclosed hlt
    have hwaiting : j < s.waiting.length := h.shaped.waiting.symm ▸ hj.trans_le h.shaped.pending
    have howner : j < s.owner.length := h.shaped.owner.symm ▸ hj.trans_le h.shaped.pending
    refine ⟨_, _, ?_, ?_, h.owns.find hm⟩
    · rw [List.getElem?_eq_getElem hwaiting, List.getElem_eq_getD 0]
    · rw [List.getElem?_eq_getElem howner, List.getElem_eq_getD 0]
  closed := by
    intro hpc i hi
    have hheld : s.held s.pc = [] := by rw [hpc, Core.held]
    have hbalance : opens s.log ~ closes s.log := by
      have hall := h.owns.balance
      rwa [hheld] at hall
    rw [count_closes, ← hbalance.count_eq]
    exact List.count_eq_one_of_mem h.owns.nodup (some_mem_opens.mpr hi)

/-- A request without a reply has none to read. -/
theorem reply_of_neg {k : Core} {i : Nat} {n : Int} (hlen : k.respLen[i]? = some n) (hn : n < 0) :
    k.reply i = none := by
  have hget : k.respLen.getD i (-1) = n := by
    rw [List.getD_eq_getElem?_getD, hlen, Option.getD_some]
  unfold Core.reply
  rw [hget]
  exact if_pos hn

theorem Delivered.reply_of_settled {c : Call} {s : State} (h : Delivered c s) {i : Nat}
    {bytes : Bytes} (hs : .settled i (.data bytes) ∈ s.log) : s.reply i = some bytes := by
  obtain ⟨hlen, hdata⟩ := h.settled i _ hs
  have hget : s.respLen.getD i (-1) = bytes.length := by
    rw [List.getD_eq_getElem?_getD, hlen, Option.getD_some]
    rfl
  have hresp : s.resp.getD i [] = bytes := by
    rw [List.getD_eq_getElem?_getD, hdata bytes rfl, Option.getD_some]
  unfold Core.reply
  rw [hget, hresp]
  simp only []
  rw [if_neg (Int.not_lt.mpr (Int.natCast_nonneg _)), Int.toNat_natCast, List.take_length]

/-- The reply the caller reads is what settled the request. -/
theorem Delivered.reply_iff {c : Call} {s : State} (h : Delivered c s) (hpc : s.pc ≠ .start)
    {i : Nat} (hi : i < c.xs.length) {bytes : Bytes} :
    s.reply i = some bytes ↔ .settled i (.data bytes) ∈ s.log := by
  refine ⟨fun hreply => ?_, h.reply_of_settled⟩
  by_cases hs : ∃ result, .settled i result ∈ s.log
  · obtain ⟨result, hs⟩ := hs
    cases result with
    | data bytes' =>
      cases (h.reply_of_settled hs).symm.trans hreply
      exact hs
    | wouldBlock =>
      rw [reply_of_neg (h.settled i _ hs).1 (by decide)] at hreply
      cases hreply
    | failed =>
      rw [reply_of_neg (h.settled i _ hs).1 (by decide)] at hreply
      cases hreply
  · rw [reply_of_neg (h.unsettled hpc i hi (not_exists.mp hs)) (by decide)] at hreply
    cases hreply

/-- **A reply came in on the socket that was connected to the port of its request.** -/
theorem Delivered.reply_from_port {c : Call} {s : State} (h : Delivered c s) (hpc : s.pc ≠ .start)
    {i : Nat} (hi : i < c.xs.length) {bytes : Bytes} (hreply : s.reply i = some bytes) :
    .received (some i) i (.data bytes) ∈ s.log ∧ Asked c s.log i := by
  obtain ⟨before, after, hlog⟩ := List.append_of_mem ((h.reply_iff hpc hi).mp hreply)
  have hfits := h.fits
  rw [hlog] at hfits
  obtain ⟨-, ⟨earlier, hearlier⟩, -⟩ := hfits.get
  have hreceived : Each (Fits c) (earlier ++ [.received (some i) i (.data bytes)]) :=
    hfits.of_prefix (hearlier ▸ List.prefix_append _ _)
  have hasked : Asked c earlier i := hreceived.get.2
  have hsub : earlier ++ [.received (some i) i (.data bytes)] ⊆ s.log := by
    rw [hlog, ← hearlier]
    exact List.subset_append_left _ _
  exact ⟨hsub (by simp), hasked.mono (List.Subset.trans (List.subset_append_left _ _) hsub)⟩

/-- **Each reply goes to its own request and no socket leaks.** At every step of every call:
a socket is used while it is open and only for the request it was opened for, a request is settled
once, by what `recv` put into its own buffer, the two arrays agree, and a call that is over has
closed each socket once. A call goes on until it is over, which is soon after its last wait. -/
theorem udpExchangeAll_delivers {c : Call} {s₀ s : State} {answers : List Answer}
    (h₀ : (udpExchangeAll c).init s₀) (hrun : (udpExchangeAll c).exec s₀ answers = some s) :
    Delivered c s ∧ answers.length ≤ 3 * c.xs.length + 13 + 11 * waits answers ∧
      (s.pc ≠ .returned → ∃ answer s', (udpExchangeAll c).step s answer = some s') := by
  have hreach : (udpExchangeAll c).Reachable s := ⟨s₀, answers, h₀, hrun⟩
  refine ⟨?_, (Nat.le_add_right _ _).trans (length_le h₀ hrun), exists_step hreach⟩
  rcases reachable_inv hreach with hinit | hinv
  · exact delivered_init hinit
  · exact hinv.delivered

/-- A NetBIOS and an mDNS query. -/
def sampleCall : Call where
  os := .posix
  ip := some (192, 168, 1, 7)
  xs := [⟨[0x13, 0x37], 1024, 137⟩, ⟨[0, 0], 1024, 5353⟩]
  timeoutMs := 200

def sampleStart : State where
  waiting := [9, 9, 9, 9, 9, 9, 9, 9]
  owner := [9, 9, 9, 9, 9, 9, 9, 9]
  pending := 0
  deadline := 0
  respLen := [7, 7]
  resp := [[], []]
  table := []
  log := []
  pc := .start

/-- The NetBIOS query is answered and leaves its slot to the mDNS one, which is refused. -/
def sampleAnswers : List Answer :=
  [.go, .socket (some 4), .connect true, .send 2, .socket (some 5), .connect true, .send 2, .go,
    .clock 10, .clock 10, .poll 1 [1, 0] false 3, .go, .recv (.data [0x13, 0x37, 0x84]), .go,
    .clock 14, .poll (-1) [] true 6, .poll 1 [8] false 9, .recv .failed, .go, .go, .go]

/-- The call that `sampleAnswers` answer. -/
theorem udpExchangeAll_delivers_sample :
    ∃ s, (udpExchangeAll sampleCall).exec sampleStart sampleAnswers = some s ∧
      Delivered sampleCall s ∧ s.pc = .returned ∧ s.respLen = [3, -1] := by
  have hend : ((udpExchangeAll sampleCall).exec sampleStart sampleAnswers).map
      (fun s => (s.pc, s.respLen)) = some (.returned, [3, -1]) := by decide +kernel
  obtain ⟨s, hrun, hs⟩ := Option.map_eq_some_iff.mp hend
  have hinit : (udpExchangeAll sampleCall).init sampleStart :=
    ⟨rfl, rfl, rfl, rfl, rfl, rfl, rfl, rfl⟩
  exact ⟨s, hrun, (udpExchangeAll_delivers hinit hrun).1, (Prod.mk.inj hs).1, (Prod.mk.inj hs).2⟩

end NetScanner.Names.Exchange
