import Elegance.Proofs.RpcCalls

/-!
# Requests stay registered

The counter wraps at `SHRT_MAX` without a look at the table. While fewer ids than that are in use
the one drawn is not among them (`Pooled.draw`); once all of them are, it is the oldest, 0.
-/

namespace Elegance

open CInt Machine

variable {ρ : Type} {H : HostLayout}

namespace RPCSession

variable {s : RPCSession ρ} {used : List ℤ} {n : ℤ}

/-- The ids below `n` are split between the stack and those in use; the counter stands at `n`, or
at 0 once all of them were made. -/
structure Pooled (s : RPCSession ρ) (used : List ℤ) (n : ℤ) : Prop where
  pool : Pool 0 n s.freeRequestIdStack used
  le : n ≤ shrtMax
  next : s.nextRequestId = n % shrtMax

theorem Pooled.perm {used' : List ℤ} (h : Pooled s used n) (hp : used.Perm used') :
    Pooled s used' n :=
  ⟨h.pool.perm hp, h.le, h.next⟩

theorem Pooled.draw (h : Pooled s used n) (hroom : (used.length : ℤ) < shrtMax) :
    s.getRequestID.1 ∉ used ∧
      ∃ n', Pooled s.getRequestID.2 (s.getRequestID.1 :: used) n' := by
  have hpool := h.pool
  rcases hs : s.freeRequestIdStack with _ | ⟨top, rest⟩ <;> rw [hs] at hpool
  · have hlen := hpool.length_used
    have hn : s.nextRequestId = n := by
      rw [h.next]
      exact Int.emod_eq_of_lt (by omega) (by omega)
    rw [getRequestID_nil hs]
    dsimp only
    rw [hn]
    refine ⟨hpool.next_not_mem, n + 1, ?_, by omega, rfl⟩
    dsimp only
    rw [hs]
    exact hpool.make
  · rw [getRequestID_cons hs]
    exact ⟨hpool.not_mem_used, n, hpool.take, h.le, h.next⟩

/-- With every id in use the next one drawn is among them. -/
theorem Pooled.draw_full (h : Pooled s used n) (hfull : shrtMax ≤ (used.length : ℤ)) :
    s.getRequestID.1 ∈ used := by
  have hpool := h.pool
  have hcount := hpool.count
  have hle := h.le
  rw [List.length_append] at hcount
  push_cast at hcount
  have hs : s.freeRequestIdStack = [] := List.length_eq_zero_iff.1 (by omega)
  have hn : n = shrtMax := by omega
  rw [hs] at hpool
  rw [getRequestID_nil hs, h.next, hn, Int.emod_self]
  exact hpool.mem_used le_rfl (by simp [hn, shrtMax])

theorem Pooled.push {k : ℤ} (h : Pooled s (k :: used) n) : Pooled (s.pushFreeId k) used n :=
  ⟨h.pool.give, h.le, h.next⟩

/-- The ids in use are those in the table. -/
def Tabled (s : RPCSession ρ) : Prop := ∃ n, Pooled s s.requestList.keys n

theorem Tabled.register (h : Tabled s) (hroom : (s.requestList.size : ℤ) < shrtMax) (req : ρ) :
    s.requestList.find s.getRequestID.1 = none ∧
      Tabled (s.getRequestID.2.register s.getRequestID.1 req) := by
  obtain ⟨n, h⟩ := h
  rw [← StdMap.length_keys] at hroom
  obtain ⟨hnew, n', h'⟩ := h.draw hroom
  have hnone : s.requestList.find s.getRequestID.1 = none := by
    rw [StdMap.mem_keys_iff, Bool.not_eq_true, Option.isSome_eq_false_iff,
      Option.isNone_iff_eq_none] at hnew
    exact hnew
  refine ⟨hnone, n', ?_⟩
  have hkeys := (StdMap.keys_set hnone req).symm
  rw [getRequestID_fields] at h' ⊢
  exact ⟨h'.pool.perm hkeys, h'.le, h'.next⟩

theorem Pooled.isRequestId (h : Pooled s used n) {k : ℤ} (hk : k ∈ used) : IsRequestId k := by
  have hrange := h.pool.range k (List.mem_append_right _ hk)
  exact ⟨hrange.1, lt_of_lt_of_le hrange.2 h.le⟩

theorem Tabled.isRequestId (h : Tabled s) {k : ℤ} {r : ρ} (hk : s.requestList.find k = some r) :
    IsRequestId k := by
  obtain ⟨n, h⟩ := h
  exact h.isRequestId ((StdMap.mem_keys_iff _ _).2 (by rw [hk]; rfl))

/-- Where there is room, a call is sent under an id not in use. -/
theorem Tabled.asyncCall {s' : RPCSession ρ} {req : ρ} {data message : List Byte} {k : ℤ}
    (h : Tabled s) (hroom : s.Room data) (hs : s.asyncCall H req data = .sent k message s') :
    s.requestList.find k = none ∧ Tabled s' := by
  obtain ⟨hne, hlen⟩ := length_of_sent hs
  have hsent := sent_of_length (H := H) s req hne hlen
  rw [hs] at hsent
  injection hsent with hk _ hs'
  rw [hk, hs']
  exact h.register (hroom hne hlen) req

theorem Tabled.free (h : Tabled s) {k : ℤ} {r : ρ} (hk : s.requestList.find k = some r) :
    Tabled ((s.eraseRequest k).pushFreeId k) := by
  obtain ⟨n, h⟩ := h
  have hkeys := StdMap.keys_erase (m := s.requestList) (k := k) (by rw [hk]; rfl)
  exact ⟨n, (h.pool.perm hkeys).give, h.le, h.next⟩

end RPCSession

open RPCSession

namespace RpcCalls

variable {w : RpcCalls ρ} {ev : CallEvent ρ}

variable (H) in
/-- No entry of `request_list_` is replaced, and one goes only with its own response. -/
def Kept (w : RpcCalls ρ) (ev : CallEvent ρ) : Prop :=
  (∀ req data k message s', ev = .asyncCall req data → w.halted = false →
    w.session.asyncCall H req data = .sent k message s' → w.session.requestList.find k = none) ∧
  ∀ k r, w.session.requestList.find k = some r →
    (w.step H ev).session.requestList.find k = some r ∨
    ∃ data results, ev = .onRecv data results ∧ Answers H w.session data r ∧ messageId H data = k

/-- A call is made with room in the table. -/
def Room (w : RpcCalls ρ) : CallEvent ρ → Prop
  | .asyncCall _ data => w.halted = false → w.session.Room data
  | .onRecv _ _ => True

theorem tabled_start (endpoint : Endpoint) (networkId : NetworkID) (reserveCh : Byte)
    (handlerList : List Addr) :
    Tabled (start (ρ := ρ) endpoint networkId reserveCh handlerList).session :=
  ⟨0, Pool.empty 0, by decide, rfl⟩

theorem tabled_step (h : Tabled w.session) (hroom : w.Room ev) :
    Tabled (w.step H ev).session := by
  cases ev with
  | asyncCall req data =>
    by_cases hh : w.halted = true
    · rwa [step, if_pos hh]
    rw [step, if_neg hh]
    rcases hc : w.session.asyncCall H req data with _ | _ | ⟨k, message, s'⟩
    · exact h
    · exact h
    · exact (h.asyncCall (hroom (by simpa using hh)) hc).2
  | onRecv data results =>
    rcases step_cases H w (.onRecv data results) with ⟨_, _, _, _, _, -, hev, -⟩ |
      ⟨data, results, r, -, hev, ha, hstep⟩ | ⟨halted, hstep⟩
    · cases hev
    · rw [hstep]
      exact h.free ha.target
    · rwa [hstep]

theorem find_of_asyncCall {req : ρ} {data : List Byte} {k : ℤ} {r : ρ} (h : Tabled w.session)
    (hroom : w.Room (.asyncCall req data)) (hk : w.session.requestList.find k = some r) :
    (w.step H (.asyncCall req data)).session.requestList.find k = some r := by
  by_cases hh : w.halted = true
  · rwa [step, if_pos hh]
  rw [step, if_neg hh]
  rcases hc : w.session.asyncCall H req data with _ | _ | ⟨j, message, s'⟩
  · exact hk
  · exact hk
  · have hnone := (h.asyncCall (hroom (by simpa using hh)) hc).1
    have hj : k ≠ j := fun hj => by
      rw [hj, hnone] at hk
      cases hk
    exact ((asyncCall_sent hc).find k).trans (by rw [if_neg hj, hk])

theorem kept_of_room (h : Tabled w.session) (hroom : w.Room ev) : Kept H w ev := by
  refine ⟨fun req data k message s' hev hh hs => ?_, fun k r hk => ?_⟩
  · subst hev
    exact (h.asyncCall (hroom hh) hs).1
  cases ev with
  | asyncCall req data => exact .inl (find_of_asyncCall h hroom hk)
  | onRecv data results =>
    rcases step_cases H w (.onRecv data results) with ⟨_, _, _, _, _, -, hev, -⟩ |
      ⟨data, results, r', -, hev, ha, hstep⟩ | ⟨halted, hstep⟩
    · cases hev
    · rw [hstep, hev]
      by_cases hj : k = messageId H data
      · subst hj
        obtain rfl : r = r' := Option.some.inj (hk.symm.trans ha.target)
        exact .inr ⟨data, results, rfl, ha, rfl⟩
      · left
        dsimp only
        rw [pushFreeId, find_eraseRequest, if_neg hj]
        exact hk
    · left
      rwa [hstep]

theorem not_kept (h : Tabled w.session) (hroom : ¬ w.Room ev) : ¬ Kept H w ev := by
  cases ev with
  | onRecv data results => exact absurd trivial hroom
  | asyncCall req data =>
    simp only [Room, RPCSession.Room, not_forall, not_lt] at hroom
    obtain ⟨hh, hne, hlen, hfull⟩ := hroom
    obtain ⟨n, h⟩ := h
    rw [← StdMap.length_keys] at hfull
    have hmem := h.draw_full hfull
    intro hkept
    have hnone := hkept.1 req data _ _ _ rfl hh (sent_of_length w.session req hne hlen)
    rw [StdMap.mem_keys_iff, hnone] at hmem
    cases hmem

/-- In every run, no request is displaced exactly when each call is made with room in the table. -/
theorem kept_iff (H : HostLayout) (endpoint : Endpoint) (networkId : NetworkID) (reserveCh : Byte)
    (handlerList : List Addr) (evs : List (CallEvent ρ)) :
    Along (step H) (Kept H) (start endpoint networkId reserveCh handlerList) evs ↔
      Along (step H) Room (start endpoint networkId reserveCh handlerList) evs := by
  have hcongr : ∀ (w : RpcCalls ρ) ev, Tabled w.session → (Kept H w ev ↔ w.Room ev) :=
    fun w ev h => ⟨fun hk => by
      by_contra hroom
      exact not_kept h hroom hk, kept_of_room h⟩
  have hkeep : ∀ (w : RpcCalls ρ) ev, Tabled w.session → w.Room ev →
      Tabled (w.step H ev).session := fun w ev h hroom => tabled_step h hroom
  exact along_congr (I := fun w => Tabled w.session) hkeep hcongr (tabled_start _ _ _ _)

/-- `n` calls were sent and none was answered. -/
structure Filled (w : RpcCalls ρ) (n : ℕ) : Prop where
  halted : w.halted = false
  stack : w.session.freeRequestIdStack = []
  next : w.session.nextRequestId = n % shrtMax
  find : ∀ k : ℤ, 0 ≤ k → k < n → (w.session.requestList.find k).isSome

theorem filled_step {n : ℕ} (h : Filled w n) (hn : (n : ℤ) < shrtMax) (req : ρ) :
    Filled (w.step H (.asyncCall req [0])) (n + 1) := by
  have hn' : w.session.nextRequestId = n := by
    rw [h.next]
    exact Int.emod_eq_of_lt (by omega) hn
  have hsent := sent_of_length (H := H) w.session req (List.cons_ne_nil 0 []) (by decide)
  rw [getRequestID_nil h.stack, hn'] at hsent
  rw [step, if_neg (by rw [h.halted]; simp), hsent]
  refine ⟨h.halted, h.stack, ?_, fun k hk hk' => ?_⟩
  · push_cast
    rfl
  · dsimp only
    rw [find_register]
    split_ifs with hkn
    · rfl
    · exact h.find k hk (by omega)

theorem filled_exec (reqs : ℕ → ρ) (n : ℕ) (hn : (n : ℤ) ≤ shrtMax) :
    Filled (exec (step H) (start {} 1 0 []) ((List.range n).map fun i => .asyncCall (reqs i) [0]))
      n := by
  induction n with
  | zero => exact ⟨rfl, rfl, rfl, fun k hk hk' => by omega⟩
  | succ n ih =>
    rw [List.range_succ, List.map_append, exec_append]
    exact filled_step (ih (by omega)) (by omega) _

theorem not_kept_of_filled {n : ℕ} (h : Filled w n) (hn : (n : ℤ) = shrtMax) (req : ρ) :
    ¬ Kept H w (.asyncCall req [0]) := by
  intro hkept
  have hid : w.session.nextRequestId = 0 := by
    rw [h.next, hn, Int.emod_self]
  have hnone := hkept.1 req [0] _ _ _ rfl h.halted
    (sent_of_length _ req (List.cons_ne_nil 0 []) (by decide))
  rw [getRequestID_nil h.stack, hid] at hnone
  have hsome := h.find 0 le_rfl (by rw [hn]; decide)
  rw [hnone] at hsome
  cases hsome

/-- The call after `SHRT_MAX` pending ones takes the id 0 of the first. -/
theorem not_kept_full : ¬ ∀ evs : List (CallEvent ℕ),
    Along (step littleEndian) (Kept littleEndian) (start {} 1 0 []) evs := by
  intro h
  obtain ⟨n, hn⟩ : ∃ n : ℕ, (n : ℤ) = shrtMax := ⟨shrtMax.toNat, rfl⟩
  have hall := h ((List.range n).map (fun i => .asyncCall (id i) [0]) ++ [.asyncCall n [0]])
  rw [along_append] at hall
  exact not_kept_of_filled (filled_exec id n hn.le) hn n hall.2.1

end RpcCalls

end Elegance
