import Elegance.Proofs.NetworkThreads

/-!
# The pool of net ids

Where every loop over the socket objects finds one, an id that was drawn and not given back is in
the maps or with an event function in progress, so the ids made so far are those in use and those on
`free_net_id_list_`. A new one is made only when that list is empty: there were never more.
-/

namespace Elegance

open CInt StrictWeakOrd Machine

variable {κ : Type}

namespace ThreadAt

/-- An event function is at a point where the maps may not have the id. -/
def mayLack : ThreadAt κ → Bool
  | .checkSockets _ | .setOwner (_ :: _) | .setTables _ => true
  | p => p.closing

theorem inProgress_of_mayLack {p : ThreadAt κ} (h : p.mayLack = true) : p.inProgress = true := by
  unfold mayLack at h
  split at h <;> simp_all [inProgress, live, isIdle]

theorem holds_of_inProgress {p : ThreadAt κ} (h : p.inProgress = true) : p.holds = true := by
  unfold inProgress at h
  unfold holds
  split
  · rfl
  · simp only [Bool.or_eq_true, Bool.and_eq_true] at h ⊢
    exact h.imp_left And.left

end ThreadAt

namespace NetworkThreads

variable {H : HostLayout} {afterPackage : NetworkID → List Byte → ℤ → Option (List (Addr × κ))}
  {w w' : NetworkThreads κ} {i : ℕ} {c c' : NetThread κ} {p : ThreadAt κ}

/-- An id is in the maps, or its event function is at a point where it may not be. -/
def Placed (w : NetworkThreads κ) : Prop :=
  ∀ c ∈ w.threads, c.pos.holds = true → c.entered = true ∨ c.pos.mayLack = true

theorem Placed.set (h : Placed w) (ht : w'.threads = w.threads.set i c')
    (hc' : c'.pos.holds = true → c'.entered = true ∨ c'.pos.mayLack = true) : Placed w' := by
  intro d hd
  rw [ht] at hd
  rcases List.mem_or_eq_of_mem_set hd with hd | rfl
  · exact h d hd
  · exact hc'

theorem placed_runThread (h : Placed w) (hi : w.threads[i]? = some c) (hfound : w.Found (.run i)) :
    Placed (w.runThread H afterPackage i c) := by
  have hstay : ∀ {p q : ThreadAt κ}, c.pos = q → q.holds = true → q.mayLack = false →
      p.holds = true → c.entered = true ∨ p.mayLack = true := by
    rintro p _ rfl hh hl -
    exact .inl ((h c (List.mem_of_getElem? hi) hh).resolve_right (by simp [hl]))
  unfold runThread
  split
  case h_1 check hp =>
    obtain ⟨a, ha, hca⟩ := hfound c hi check (by rw [hp]; rfl)
    refine h.set rfl fun _ => .inr ?_
    rcases hl : (w.mgr.socketList c.kind).filter check with _ | ⟨s, found⟩
    · exact absurd (hl ▸ List.mem_filter.2 ⟨ha, hca⟩) List.not_mem_nil
    · rfl
  case h_2 hp => exact h.set rfl (hstay hp rfl rfl)
  case h_3 hp => exact h.set rfl fun _ => .inr rfl
  case h_4 hp => exact h.set rfl fun _ => .inl rfl
  case h_8 hp =>
    dsimp only
    split
    · exact h.set rfl (hstay hp rfl rfl)
    · exact h
  case h_9 hp =>
    split
    · exact h.set rfl (hstay hp rfl rfl)
    · exact h
  case h_12 hp =>
    split
    · exact h.set rfl (hstay hp rfl rfl)
    · exact h
  case h_15 | h_16 | h_17 | h_18 => exact h.set rfl fun _ => .inr rfl
  case h_19 | h_20 | h_21 | h_22 => exact h.set rfl (nomatch ·)
  case h_23 | h_24 | h_25 => exact h
  all_goals
    next hp => exact h.set rfl (hstay hp rfl rfl)

theorem placed_step {ev : ThreadsEvent} (hids : Ids w) (h : Placed w) (hcan : w.Can ev)
    (hfound : w.Found ev) : Placed (w.step H afterPackage ev) := by
  have hjoin : ∀ {c : NetThread κ} {w' : NetworkThreads κ}, w'.threads = w.threads ++ [c] →
      (c.pos.holds = true → c.pos.mayLack = true) → Placed w' := fun ht hc d hd hd' => by
    rw [ht, List.mem_append, List.mem_singleton] at hd
    rcases hd with hd | rfl
    · exact h d hd hd'
    · exact .inr (hc hd')
  have hopens : ∀ kind check endpoint, Placed (w.opens kind check endpoint) := by
    intro kind check endpoint
    unfold NetworkThreads.opens
    split_ifs
    · exact h
    · exact hjoin rfl fun _ => rfl
  have hentered : ∀ {i : ℕ} {c : NetThread κ}, w.threads[i]? = some c → c.pos.isIdle = true →
      c.entered = true := fun {i c} hi hc => by
    refine (h c (List.mem_of_getElem? hi) (holds_of_live (live_of_isIdle hc))).resolve_right ?_
    unfold ThreadAt.isIdle at hc
    split at hc <;> simp_all [ThreadAt.mayLack, ThreadAt.closing]
  cases ev with
  | insertSocket kind a | eraseSocket kind a => exact h
  | listenFail port => exact hjoin rfl fun h => by cases h
  | connectFail ip port localPort => exact hjoin rfl fun h => by cases h
  | accept accepts ip port localPort => exact hopens _ _ _
  | connect connects ip port localPort => exact hopens _ _ _
  | recv i data =>
    obtain ⟨c, hi, hc⟩ := hcan.2
    have hi : w.threads[i]? = some c := hi
    simp only [step, hi]
    split
    · exact h
    · have he := hentered hi hc
      exact h.set rfl fun _ => .inl he
  | disconnect i =>
    obtain ⟨c, hi, hc⟩ := hcan.2
    have hi : w.threads[i]? = some c := hi
    simp only [step, hi]
    split
    · next hn =>
      have hfind := (hids.tabled.byEndpoint c.endpoint c.netId).2
        ⟨c, List.mem_of_getElem? hi, hentered hi hc, rfl, equiv_refl _⟩
      rw [hn] at hfind
      cases hfind
    · exact h.set rfl fun _ => .inr rfl
  | run i =>
    simp only [step]
    split
    · exact h
    · next c hi => exact placed_runThread h hi hfound
  | handleNetTask => exact h
  | handle =>
    simp only [step]
    split <;> exact h

/-- The ids drawn and not given back are those in use. -/
theorem perm_inUse (hids : Ids w) (h : Placed w) : (ids w.threads).Perm w.inUse := by
  have hsplit := (List.filter_append_perm (·.entered) (w.threads.filter (·.pos.holds))).symm
  have hentered : (w.threads.filter (·.pos.holds)).filter (·.entered) =
      w.threads.filter (·.entered) := by
    rw [List.filter_filter]
    refine List.filter_congr fun c hc => ?_
    rcases he : c.entered with _ | _
    · rfl
    · rw [holds_of_live (hids.live c hc he)]
      rfl
  have hheld : (w.threads.filter (·.pos.holds)).filter (!·.entered) =
      w.threads.filter fun c => c.pos.inProgress && !c.entered := by
    rw [List.filter_filter]
    refine List.filter_congr fun c hc => ?_
    rcases he : c.entered with _ | _
    · rw [Bool.and_comm, Bool.eq_iff_iff, Bool.and_eq_true, Bool.and_eq_true]
      refine and_congr_left fun _ => ⟨fun hh => ?_, ThreadAt.holds_of_inProgress⟩
      exact ThreadAt.inProgress_of_mayLack ((h c hc hh).resolve_left (by simp [he]))
    · simp
  have hkeys : ((w.threads.filter (·.entered)).map (·.netId)).Perm
      w.mgr.netIdToEndpointMap.keys := by
    refine (List.perm_ext_iff_of_nodup ?_ (StdMap.nodup_keys _)).2 fun n => ?_
    · refine hids.pool.nodup_used.sublist ?_
      rw [← hentered]
      exact List.filter_sublist.map _
    · rw [StdMap.mem_keys_iff, Option.isSome_iff_exists, List.mem_map]
      constructor
      · rintro ⟨c, hc, rfl⟩
        obtain ⟨hc, he⟩ := List.mem_filter.1 hc
        exact ⟨c.endpoint, (hids.tabled.byId _ _).2 ⟨c, hc, he, rfl, rfl⟩⟩
      · rintro ⟨e, he⟩
        obtain ⟨c, hc, hentered, rfl, -⟩ := (hids.tabled.byId _ _).1 he
        exact ⟨c, List.mem_filter.2 ⟨hc, hentered⟩, rfl⟩
  rw [hentered, hheld] at hsplit
  refine (hsplit.map (·.netId)).trans ?_
  rw [List.map_append]
  exact hkeys.append_right _

/-- The two maps have the same entries, turned round. -/
theorem Ids.inverse (h : Ids w) : w.mgr.toEndpointTables.Inverse := by
  intro n e
  constructor
  · intro hmem
    obtain ⟨c, hc, he, rfl, rfl⟩ := (h.tabled.byId n e).1 (StdMap.find_of_mem hmem)
    obtain ⟨e', hmem', heq⟩ := StdMap.mem_of_find
      ((h.tabled.byEndpoint c.endpoint c.netId).2 ⟨c, hc, he, rfl, equiv_refl _⟩)
    obtain ⟨d, hd, hd', hid, rfl⟩ := h.tabled.keyed _ hmem'
    have hfind := (h.tabled.byId c.netId d.endpoint).2 ⟨d, hd, hd', hid, rfl⟩
    rw [StdMap.find_of_mem hmem] at hfind
    rwa [Option.some.inj hfind]
  · intro hmem
    obtain ⟨c, hc, he, hn, he'⟩ := h.tabled.keyed _ hmem
    obtain ⟨n', hmem', hn'⟩ := StdMap.mem_of_find ((h.tabled.byId n e).2 ⟨c, hc, he, hn, he'⟩)
    have : n = n' := by simpa using hn'
    rwa [this]

theorem maxNetId_runThread (w : NetworkThreads κ) (i : ℕ) (c : NetThread κ) :
    (w.runThread H afterPackage i c).mgr.maxNetId = w.mgr.maxNetId := by
  have htell : ∀ task call, (w.mgr.tell task call).1.maxNetId = w.mgr.maxNetId := by
    intro task call
    rw [NetworkManager.tell_fields]
  unfold runThread
  split
  case h_3 => rcases c.kind with _ | _ <;> rfl
  case h_5 | h_16 | h_20 => exact htell _ _
  case h_8 =>
    dsimp only
    split <;> rfl
  case h_9 =>
    split
    · next r hr =>
      rcases onRecvPackage_cases hr with rfl | ⟨-, rfl⟩
      · rfl
      · exact htell _ _
    · rfl
  case h_12 => split <;> rfl
  all_goals rfl

/-- A new id is made only when none is free. -/
theorem max_step (h : Ids w) (ev : ThreadsEvent) :
    (w.step H afterPackage ev).mgr.maxNetId = w.mgr.maxNetId ∨
      w.mgr.maxNetId ≤ (w.step H afterPackage ev).mgr.maxNetId ∧
        (w.step H afterPackage ev).mgr.freeNetIdList = [] := by
  have hopens : ∀ kind check endpoint, (w.opens kind check endpoint).mgr.maxNetId =
      w.mgr.maxNetId ∨ w.mgr.maxNetId ≤ (w.opens kind check endpoint).mgr.maxNetId ∧
        (w.opens kind check endpoint).mgr.freeNetIdList = [] := by
    intro kind check endpoint
    unfold NetworkThreads.opens
    split_ifs with hroom
    · exact .inl rfl
    · dsimp only
      rcases hf : w.mgr.freeNetIdList with _ | ⟨n, rest⟩
      · rw [h.getFreeNetID_make hf fun hm => hroom ⟨hf, hm⟩]
        exact .inr ⟨by dsimp only; omega, hf⟩
      · left
        unfold NetworkManager.getFreeNetID
        rw [hf]
  cases ev with
  | insertSocket kind a =>
    left
    rcases kind with _ | _ <;> simp only [step, NetworkManager.insertSocket] <;> split_ifs <;> rfl
  | eraseSocket kind a => rcases kind with _ | _ <;> exact .inl rfl
  | listenFail port => exact .inl rfl
  | connectFail ip port localPort => exact .inl rfl
  | accept accepts ip port localPort => exact hopens _ _ _
  | connect connects ip port localPort => exact hopens _ _ _
  | recv i data =>
    left
    simp only [step]
    split
    · rfl
    · split <;> rfl
  | disconnect i =>
    left
    simp only [step]
    split
    · rfl
    · split <;> rfl
  | run i =>
    left
    simp only [step]
    split
    · rfl
    · exact maxNetId_runThread _ _ _
  | handleNetTask =>
    left
    simp only [step, NetworkManager.handleNetTask]
    split <;> rfl
  | handle =>
    left
    simp only [step]
    split <;> rfl

theorem ids_placed_exec {registered : List Addr} {singleThread : Bool} {es : List ThreadsEvent}
    (hcan : Along (step H afterPackage) Can (start registered singleThread) es)
    (hfound : Along (step H afterPackage) Found (start registered singleThread) es) :
    Ids (exec (step H afterPackage) (start registered singleThread) es) ∧
      Placed (exec (step H afterPackage) (start registered singleThread) es) := by
  refine ⟨ids_exec hcan, ?_⟩
  refine invariant (I := Placed) ?_ ?_ ((along_and _ _).2 ⟨ids_along hcan, hfound⟩)
  · rintro w ev hplaced ⟨⟨hc, hids⟩, hf⟩
    exact placed_step hids hplaced hc hf
  · simp [Placed, start]

theorem inUse_le_max (hids : Ids w) (h : Placed w) : (w.inUse.length : ℤ) ≤ w.mgr.maxNetId := by
  have hcount := (hids.pool.perm (perm_inUse hids h)).count
  rw [List.length_append] at hcount
  omega

/-- The counter is the largest number of ids in use at once. -/
theorem max_isGreatest {s : NetworkThreads κ} (hs : s.mgr.maxNetId = s.inUse.length)
    {es : List ThreadsEvent} (h : ∀ pre, pre <+: es →
      Ids (exec (step H afterPackage) s pre) ∧ Placed (exec (step H afterPackage) s pre)) :
    IsGreatest {n : ℤ | ∃ pre, pre <+: es ∧ n = (exec (step H afterPackage) s pre).inUse.length}
      (exec (step H afterPackage) s es).mgr.maxNetId := by
  induction es using List.reverseRecOn with
  | nil =>
    refine ⟨⟨[], List.prefix_rfl, hs⟩, ?_⟩
    rintro n ⟨pre, hpre, rfl⟩
    obtain ⟨hids, hplaced⟩ := h [] List.prefix_rfl
    rw [List.prefix_nil.1 hpre]
    exact inUse_le_max hids hplaced
  | append_singleton es e ih =>
    have hpre : es <+: es ++ [e] := List.prefix_append _ _
    obtain ⟨⟨pre, hpre', hmem⟩, hub⟩ := ih fun pre hp => h pre (hp.trans hpre)
    obtain ⟨hids, hplaced⟩ := h (es ++ [e]) List.prefix_rfl
    have hle := inUse_le_max hids hplaced
    have hstep := @max_step κ H afterPackage _ (h es hpre).1 e
    rw [exec_append] at hids hplaced hle
    rw [exec_append]
    have hbound : ∀ b : ℤ, (exec (step H afterPackage) s es).mgr.maxNetId ≤ b →
        (((exec (step H afterPackage) s es).step H afterPackage e).inUse.length : ℤ) ≤ b →
        b ∈ upperBounds {n : ℤ | ∃ pre, pre <+: es ++ [e] ∧
          n = (exec (step H afterPackage) s pre).inUse.length} := by
      rintro b hb hb' n ⟨pre, hp, rfl⟩
      rcases List.prefix_concat_iff.1 hp with rfl | hp
      · rw [exec_append]
        exact hb'
      · exact (hub ⟨pre, hp, rfl⟩).trans hb
    rcases hstep with hmax | ⟨hmax, hfree⟩
    · refine ⟨⟨pre, hpre'.trans hpre, ?_⟩, hbound _ hmax.ge hle⟩
      exact hmax.trans hmem
    · refine ⟨⟨es ++ [e], List.prefix_rfl, ?_⟩, hbound _ hmax hle⟩
      have hcount := (hids.pool.perm (perm_inUse hids hplaced)).count
      rw [exec_append]
      simp only [exec_cons, exec_nil, hfree, List.nil_append] at hcount ⊢
      omega

/-- The ids made so far are those on `free_net_id_list_`, the keys of `net_id_to_endpoint_map_` and
those held by event functions, each in one place; the two maps are inverse, and never were more ids
in use at once than were made. -/
theorem net_ids_partitioned {registered : List Addr} {singleThread : Bool} {es : List ThreadsEvent}
    (hcan : Along (step H afterPackage) Can (start registered singleThread) es)
    (hfound : Along (step H afterPackage) Found (start registered singleThread) es) :
    let w := exec (step H afterPackage) (start registered singleThread) es
    (w.mgr.freeNetIdList ++ w.mgr.netIdToEndpointMap.keys ++ w.held).Nodup ∧
      (∀ n, n ∈ w.mgr.freeNetIdList ++ w.mgr.netIdToEndpointMap.keys ++ w.held ↔
        1 ≤ n ∧ n ≤ w.mgr.maxNetId) ∧
      w.mgr.toEndpointTables.Inverse ∧
      IsGreatest {n : ℤ | ∃ pre, pre <+: es ∧ n = (exec (step H afterPackage)
        (start registered singleThread) pre).inUse.length} w.mgr.maxNetId := by
  intro w
  have hall : ∀ pre, pre <+: es →
      Ids (exec (step H afterPackage) (start registered singleThread) pre) ∧
        Placed (exec (step H afterPackage) (start registered singleThread) pre) := by
    rintro pre ⟨rest, rfl⟩
    exact ids_placed_exec ((along_append _ _ _).1 hcan).1 ((along_append _ _ _).1 hfound).1
  obtain ⟨hids, hplaced⟩ := hall es List.prefix_rfl
  have hpool := hids.pool.perm (perm_inUse hids hplaced)
  rw [inUse] at hpool
  refine ⟨?_, fun n => ?_, hids.inverse, max_isGreatest ?_ hall⟩
  · rw [List.append_assoc]
    exact hpool.nodup
  · rw [List.append_assoc, hpool.mem_iff, Int.lt_add_one_iff]
  · obtain ⟨handlers, hm, -⟩ := NetworkManager.foldl_registHandler registered
      { singleThreadHandleMode := singleThread } .nil
    rw [start, hm]
    rfl

theorem net_ids_partitioned_three :
    let w := exec (step littleEndian NetworkManager.afterPackage) (start [7] false) threeConnections
    (w.mgr.freeNetIdList ++ w.mgr.netIdToEndpointMap.keys ++ w.held).Nodup ∧
      (∀ n, n ∈ w.mgr.freeNetIdList ++ w.mgr.netIdToEndpointMap.keys ++ w.held ↔
        1 ≤ n ∧ n ≤ w.mgr.maxNetId) ∧
      w.mgr.toEndpointTables.Inverse ∧
      IsGreatest {n : ℤ | ∃ pre, pre <+: threeConnections ∧
        n = (exec (step littleEndian NetworkManager.afterPackage)
          (start [7] false) pre).inUse.length} w.mgr.maxNetId :=
  net_ids_partitioned (by decide +kernel) (by decide +kernel)

end NetworkThreads

end Elegance
