import Elegance.Listener

/-!
# When the tables of a listener stay inverse

The loop keeps the tables inverse but for what `Disconnect` leaves in them: an `accept` that meets a
left entry for its descriptor or for its endpoint, but not for both, breaks them (`inverse_accept`).
-/

namespace Elegance

open Machine StrictWeakOrd

namespace Listener

section Tables

variable {s : SocketAccept} {sock : ℤ} {ip : IPAddr} {port : Port}

theorem find_sock_accepted (s : SocketAccept) (sock : ℤ) (ip : IPAddr) (port : Port) (fd : ℤ) :
    (s.accepted sock ip port).sockEndpointMap.find fd =
      if sock = fd then some (s.curEndpoint ip port) else s.sockEndpointMap.find fd := by
  rw [SocketAccept.accepted, StdMap.find_set, equiv_eq_decide]
  simp only [decide_eq_true_eq]

theorem find_endpoint_accepted (s : SocketAccept) (sock : ℤ) (ip : IPAddr) (port : Port)
    (e : Endpoint) :
    (s.accepted sock ip port).endpointSockMap.find e =
      if equiv (s.curEndpoint ip port) e then some sock else s.endpointSockMap.find e := by
  rw [SocketAccept.accepted, StdMap.find_set]

/-- An `accept` keeps inverse tables inverse just where it meets no entry of another connection. -/
theorem inverse_accept (h : Inverse s) : Inverse (s.accepted sock ip port) ↔
    (∀ e ∈ s.sockEndpointMap.find sock, equiv e (s.curEndpoint ip port) = true) ∧
      ∀ sock' ∈ s.endpointSockMap.find (s.curEndpoint ip port), sock' = sock := by
  obtain ⟨hto, hback⟩ := h
  set new := s.curEndpoint ip port with hnew
  unfold Inverse
  simp only [find_sock_accepted, find_endpoint_accepted, ← hnew]
  constructor
  · rintro ⟨hto', hback'⟩
    refine ⟨fun e he => ?_, fun sock' hsock' => ?_⟩
    · by_contra hne
      have hfind := hto' e sock
      rw [equiv_comm, if_neg hne, if_pos rfl] at hfind
      obtain ⟨e', he', heq⟩ := hfind (hback sock e he)
      rw [Option.some_inj.1 he', equiv_comm] at hne
      exact hne heq
    · by_contra hne
      obtain ⟨e', he', heq⟩ := hto new sock' hsock'
      have hfind := hback' sock' e'
      rw [if_neg (Ne.symm hne), equiv_comm, if_pos heq] at hfind
      exact hne (Option.some_inj.1 (hfind he')).symm
  · rintro ⟨hsock, hendpoint⟩
    constructor
    · intro e fd he
      split_ifs at he with heq
      · rw [if_pos (Option.some_inj.1 he)]
        exact ⟨new, rfl, heq⟩
      · obtain ⟨e', he', heq'⟩ := hto e fd he
        refine ⟨e', ?_, heq'⟩
        rw [if_neg, he']
        rintro rfl
        exact heq (by rw [← equiv_congr (hsock e' he')]; exact heq')
    · intro fd e he
      split_ifs at he with hfd
      · rw [← Option.some_inj.1 he, equiv_refl, if_pos rfl, hfd]
      · have hfind := hback fd e he
        rw [if_neg, hfind]
        intro heq
        rw [← s.endpointSockMap.find_congr heq] at hfind
        exact hfd (hendpoint fd hfind).symm

theorem inverse_closed (h : Inverse s) : Inverse (s.closed sock) := by
  unfold SocketAccept.closed
  rcases hsock : s.sockEndpointMap.find sock with _ | e
  · exact h
  · obtain ⟨hto, hback⟩ := h
    unfold Inverse
    simp only [StdMap.find_erase, equiv_eq_decide, decide_eq_true_eq]
    constructor
    · intro e₁ fd hfind
      split_ifs at hfind with heq
      obtain ⟨e', he', heq'⟩ := hto e₁ fd hfind
      refine ⟨e', ?_, heq'⟩
      rw [if_neg, he']
      rintro rfl
      rw [hsock] at he'
      exact heq (Option.some_inj.1 he' ▸ heq')
    · intro fd e₁ hfind
      split_ifs at hfind with hfd
      have hend := hback fd e₁ hfind
      rw [if_neg, hend]
      intro heq
      rw [← s.endpointSockMap.find_congr heq, hback sock e hsock] at hend
      exact hfd (Option.some_inj.1 hend)

end Tables

/-- What every fresh step keeps: besides, the tables know the open connections, and a descriptor
whose end is being told is closed. -/
structure Inv (l : Listener) : Prop where
  inverse : Inverse l.socket
  known : ∀ c ∈ l.connections, l.socket.sockEndpointMap.find c.1 = some c.2
  ended : ∀ sock ∈ l.ending, ∀ c ∈ l.connections, c.1 ≠ sock
  meant : ∀ p ∈ l.sent, p.1 = p.2

variable {l : Listener}

theorem inv_start (port : Port) : Inv (start port) where
  inverse := by
    constructor
    · intro e sock h
      cases h
    · intro sock e h
      cases h
  known := by simp [start]
  ended := by simp [start]
  meant := by simp [start]

theorem inv_close (h : Inv l) (sock : ℤ) : Inv (l.close sock) where
  inverse := h.inverse
  known c hc := h.known c (List.mem_of_mem_filter hc)
  ended fd hfd c hc := h.ended fd hfd c (List.mem_of_mem_filter hc)
  meant := h.meant

theorem inv_accept (h : Inv l) {sock : ℤ} {ip : IPAddr} {port : Port}
    (hcan : l.Can (.accept sock ip port)) (hfresh : l.Fresh (.accept sock ip port)) :
    Inv (l.step (.accept sock ip port)) := by
  obtain ⟨hending, hopen⟩ := hcan
  unfold step
  constructor
  · exact (inverse_accept h.inverse).2 hfresh
  · intro c hc
    dsimp only
    rw [find_sock_accepted]
    rcases List.mem_append.1 hc with hc | hc
    · rw [if_neg (Ne.symm (hopen c hc).1)]
      exact h.known c hc
    · rw [List.mem_singleton.1 hc, if_pos rfl]
  · intro fd hfd
    dsimp only at hfd
    rw [hending] at hfd
    cases hfd
  · exact h.meant

theorem inv_hangUp (h : Inv l) (sock : ℤ) : Inv (l.step (.hangUp sock)) := by
  have hclose := inv_close h sock
  refine ⟨hclose.inverse, hclose.known, ?_, hclose.meant⟩
  rintro _ ⟨⟩ c hc
  simpa using (List.mem_filter.1 hc).2

theorem inv_forget (h : Inv l) : Inv (l.step .forget) := by
  unfold step
  dsimp only
  rcases hend : l.ending with _ | sock
  · exact h
  · refine ⟨inverse_closed h.inverse, fun c hc => ?_, by simp, h.meant⟩
    have hne : c.1 ≠ sock := h.ended sock hend c hc
    have hknown := h.known c hc
    dsimp only
    rw [SocketAccept.find_closed _ hne]
    exact hknown

/-- A connection on the descriptor a `Write` finds has an endpoint equivalent to the one named. -/
theorem equiv_of_find (h : Inv l) {e : Endpoint} {sock : ℤ}
    (hfind : l.socket.endpointSockMap.find e = some sock) {c : ℤ × Endpoint}
    (hc : c ∈ l.connections) (hsock : c.1 = sock) : equiv c.2 e = true := by
  obtain ⟨e', he', heq⟩ := h.inverse.1 e sock hfind
  rw [← hsock, h.known c hc] at he'
  rwa [Option.some_inj.1 he']

theorem inv_write (h : Inv l) {ip : IPAddr} {port : Port} {data : List Byte}
    (hfresh : l.Fresh (.write ip port data)) : Inv (l.step (.write ip port data)) := by
  unfold step
  dsimp only
  rcases hwrite : l.socket.write ip port data with _ | sock
  · exact h
  · unfold SocketAccept.write at hwrite
    split_ifs at hwrite with hdata
    refine ⟨h.inverse, h.known, h.ended, ?_⟩
    intro p hp
    rcases List.mem_append.1 hp with hp | hp
    · exact h.meant p hp
    · obtain ⟨c, hc, rfl⟩ := List.mem_map.1 hp
      obtain ⟨hmem, hsock⟩ := List.mem_filter.1 hc
      have heq := equiv_of_find h hwrite hmem (by simpa using hsock)
      exact (hfresh hdata c hmem heq).symm

theorem inv_step (h : Inv l) {ev : ListenerEvent} (hcan : l.Can ev) (hfresh : l.Fresh ev) :
    Inv (l.step ev) := by
  cases ev with
  | accept sock ip port => exact inv_accept h hcan hfresh
  | hangUp sock => exact inv_hangUp h sock
  | forget => exact inv_forget h
  | write ip port data => exact inv_write h hfresh
  | disconnect ip port =>
    unfold step
    dsimp only
    split
    · exact inv_close h _
    · exact h

/-- A `Write` that finds an open connection of another endpoint sends on it. -/
theorem sent_write (h : Inv l) {ip : IPAddr} {port : Port} {data : List Byte}
    (hfresh : ¬ l.Fresh (.write ip port data)) :
    ∃ p ∈ (l.step (.write ip port data)).sent, p.1 ≠ p.2 := by
  unfold Fresh at hfresh
  push Not at hfresh
  obtain ⟨hdata, c, hc, heq, hne⟩ := hfresh
  have hfind : l.socket.endpointSockMap.find (l.socket.curEndpoint ip port) = some c.1 := by
    rw [← StdMap.find_congr _ heq]
    exact h.inverse.2 c.1 c.2 (h.known c hc)
  have hwrite : l.socket.write ip port data = some c.1 := by
    unfold SocketAccept.write
    rw [if_neg hdata]
    exact hfind
  refine ⟨(l.socket.curEndpoint ip port, c.2), ?_, Ne.symm hne⟩
  unfold step
  simp only [hwrite, send]
  refine List.mem_append_right _ (List.mem_map.2 ⟨c, ?_, rfl⟩)
  exact List.mem_filter.2 ⟨hc, by simp⟩

theorem not_good_step (h : Inv l) {ev : ListenerEvent} (hfresh : ¬ l.Fresh ev) :
    ¬ Good (l.step ev) := by
  rintro ⟨hinverse, hmeant⟩
  cases ev with
  | accept sock ip port => exact hfresh ((inverse_accept h.inverse).1 hinverse)
  | write ip port data =>
    obtain ⟨p, hp, hne⟩ := sent_write h hfresh
    exact hne (hmeant p hp)
  | hangUp sock => exact hfresh trivial
  | forget => exact hfresh trivial
  | disconnect ip port => exact hfresh trivial

/-- All through a run the tables are inverse and nothing is sent on another connection than the one
meant, exactly when every step of it is fresh. -/
theorem listener_good_iff (port : Port) {es : List ListenerEvent}
    (hcan : Along step Can (start port) es) :
    (∀ pre, pre <+: es → Good (exec step (start port) pre)) ↔
      Along step Fresh (start port) es :=
  along_iff_forall_exec (I := Inv) (fun _ h => ⟨h.inverse, h.meant⟩)
    (fun _ _ h hcan hfresh => inv_step h hcan hfresh) (fun _ _ h _ hfresh => not_good_step h hfresh)
    (inv_start port) hcan

/-- A descriptor that `Disconnect` closed is returned for another connection. -/
def reused : List ListenerEvent :=
  [.accept 7 [97] 1, .disconnect [97] 1, .accept 7 [98, 98] 2, .write [97] 1 [0]]

theorem listener_good_reused : Along step Can (start 80) reused ∧
    ¬ ∀ pre, pre <+: reused → Good (exec step (start 80) pre) := by
  refine ⟨by decide, fun h => ?_⟩
  have hmeant := (h reused (List.prefix_refl _)).2 (⟨[97], 1, 80⟩, ⟨[98, 98], 2, 80⟩) (by decide)
  exact absurd hmeant (by decide)

/-- A connection that ends by itself leaves nothing behind. -/
def ended : List ListenerEvent :=
  [.accept 7 [97] 1, .hangUp 7, .forget, .accept 7 [98, 98] 2, .write [98, 98] 2 [0]]

theorem listener_good_ended :
    (∀ pre, pre <+: ended → Good (exec step (start 80) pre)) ↔ Along step Fresh (start 80) ended :=
  listener_good_iff 80 (by decide)

end Listener

end Elegance
