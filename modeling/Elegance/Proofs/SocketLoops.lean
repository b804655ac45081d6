import Elegance.SocketLoops

/-!
# Both loops end what they see end, unless the end comes behind data

Before its next `epoll_wait` a loop has closed, reported and erased each connection a read of which
returned 0, as long as no event returns data before that 0 (`detects_iff`): the reads after the
first only end the inner loop, and an edge-triggered descriptor is not reported again.
-/

namespace Elegance

open Machine

namespace SocketLoop

variable {σ : Type*} {L : SocketLoop σ} {w : Serving σ} {ready : List Ready}

section Serve

variable (s : σ) (sock : ℤ) {reads : Reads}

theorem serve_data (h : reads.data ≠ []) : L.serve s sock (.readable reads) =
    (s, (L.endpointOf s sock).toList.flatMap fun endpoint =>
      reads.data.map fun data => .onRecv endpoint data.bytes) := by
  rw [serve, if_neg h]

theorem not_ends_of_data (h : reads.data ≠ []) :
    ∀ call ∈ (L.serve s sock (.readable reads)).2, ¬ call.Ends := by
  rw [serve_data s sock h]
  intro call hcall
  obtain ⟨endpoint, -, hcall⟩ := List.mem_flatMap.1 hcall
  obtain ⟨data, -, rfl⟩ := List.mem_map.1 hcall
  exact id

theorem serve_cases (io : Io) :
    (∃ reads, io = .readable reads ∧ reads.data ≠ []) ∨
      L.serve s sock io = (L.closed s sock, endCalls sock (L.endpointOf s sock)) := by
  rcases io with reads | _
  · by_cases h : reads.data = []
    · exact .inr (if_pos h)
    · exact .inl ⟨reads, rfl, h⟩
  · exact .inr rfl

/-- Serving a descriptor leaves the others to their endpoints. -/
theorem endpointOf_serve {s : σ} {sock sock' : ℤ} (io : Io) (hne : sock' ≠ sock) :
    L.endpointOf (L.serve s sock io).1 sock' = L.endpointOf s sock' := by
  rcases L.serve_cases s sock io with ⟨reads, rfl, h⟩ | h
  · rw [serve_data s sock h]
  · rw [h]
    exact L.endpointOf_closed s sock sock' hne

theorem count_endCalls (endpoint : Endpoint) :
    (endCalls sock (some endpoint)).count (.close sock) = 1 ∧
      (endCalls sock (some endpoint)).count (.onDisconnect endpoint) = 1 := by
  simp [endCalls]

end Serve

/-- Nothing happened to an open connection yet, a closed one was closed and reported once. -/
structure Settled (L : SocketLoop σ) (s : σ) (c : Served) : Prop where
  ofOpen : c.isOpen → c.sawEof = false ∧ c.closes = 0 ∧ c.reports = 0 ∧
    L.endpointOf s c.sock = some c.endpoint
  ofClosed : c.isOpen = false → c.closes = 1 ∧ c.reports = 1 ∧ c.erased

structure AllSettled (L : SocketLoop σ) (w : Serving σ) : Prop where
  apart : w.served.Pairwise fun c d => c.isOpen → d.isOpen → c.sock ≠ d.sock
  settled : ∀ c ∈ w.served, Settled L w.socket c

theorem Settled.congr {s s' : σ} {c : Served} (h : Settled L s c)
    (heq : c.isOpen → L.endpointOf s' c.sock = L.endpointOf s c.sock) : Settled L s' c where
  ofOpen hopen := by
    rw [heq hopen]
    exact h.ofOpen hopen
  ofClosed := h.ofClosed

/-- A connection is either left as it was or ended, once, when its descriptor is ready. -/
theorem settled_after {s : σ} {c : Served} (h : Settled L s c) (hopen : c.isOpen) {io : Io}
    (hio : ¬ (Ready.io c.sock io).EndsBehindData) :
    Settled L (L.serve s c.sock io).1 (L.after s io c) := by
  obtain ⟨heof, hcloses, hreports, hendpoint⟩ := h.ofOpen hopen
  rcases L.serve_cases s c.sock io with ⟨reads, rfl, hdata⟩ | hserve
  · have hlast : reads.last ≠ .eof := fun hlast => hio ⟨hdata, hlast⟩
    have hcalls := L.not_ends_of_data s c.sock hdata
    have hclose : SocketCall.close c.sock ∉ (L.serve s c.sock (.readable reads)).2 :=
      fun hmem => hcalls _ hmem trivial
    have hreport : SocketCall.onDisconnect c.endpoint ∉ (L.serve s c.sock (.readable reads)).2 :=
      fun hmem => hcalls _ hmem trivial
    refine ⟨fun _ => ⟨?_, ?_, ?_, ?_⟩, fun hclosed => ?_⟩
    · simp [after, heof, Io.eof, hlast]
    · simp [after, hcloses, List.count_eq_zero_of_not_mem hclose]
    · simp [after, hreports, List.count_eq_zero_of_not_mem hreport]
    · rw [serve_data s c.sock hdata]
      exact hendpoint
    · simp [after, hclose] at hclosed
  · rw [hendpoint] at hserve
    obtain ⟨hclose, hreport⟩ := count_endCalls c.sock c.endpoint
    refine ⟨fun hopen' => ?_, fun _ => ⟨?_, ?_, ?_⟩⟩
    · simp [after, hserve, endCalls] at hopen'
    · simp [after, hserve, hcloses, hclose]
    · simp [after, hserve, hreports, hreport]
    · simp only [after, hserve]
      exact L.erased_closed s c.sock c.endpoint hendpoint

theorem allSettled_accept (h : AllSettled L w) {sock : ℤ} {ip : IPAddr} {port : Port}
    (hcan : L.Can w (.accept sock ip port)) : AllSettled L (L.step w (.accept sock ip port)) := by
  obtain ⟨hsome, hfresh⟩ := hcan
  obtain ⟨⟨s', endpoint⟩, haccepted⟩ := Option.isSome_iff_exists.1 hsome
  obtain ⟨hnew, hold⟩ := L.endpointOf_accepted _ _ _ _ _ _ haccepted
  rw [step, haccepted]
  refine ⟨List.pairwise_append.2 ⟨h.apart, List.pairwise_singleton _ _, ?_⟩, fun c hc => ?_⟩
  · intro c hc d hd hopen _
    rw [List.mem_singleton.1 hd]
    exact hfresh c hc hopen
  · rcases List.mem_append.1 hc with hc | hc
    · exact (h.settled c hc).congr fun hopen => hold _ (hfresh c hc hopen)
    · rw [List.mem_singleton.1 hc]
      exact ⟨fun _ => ⟨rfl, rfl, rfl, hnew⟩, fun hclosed => by cases hclosed⟩

theorem isOpen_of_after {s : σ} {io : Io} {c : Served} {sock : ℤ}
    (h : (if c.isOpen && c.sock = sock then L.after s io c else c).isOpen) : c.isOpen := by
  split_ifs at h with hc
  · simp only [Bool.and_eq_true] at hc
    exact hc.1
  · exact h

theorem sock_after {s : σ} {io : Io} {c : Served} {sock : ℤ} :
    (if c.isOpen && c.sock = sock then L.after s io c else c).sock = c.sock := by
  split_ifs <;> rfl

theorem allSettled_io (h : AllSettled L w) {sock : ℤ} {io : Io}
    (hio : ¬ (Ready.io sock io).EndsBehindData) : AllSettled L (L.step w (.io sock io)) := by
  refine ⟨?_, fun d hd => ?_⟩
  · rw [step, List.pairwise_map]
    refine h.apart.imp fun {c d} hcd hopen hopen' => ?_
    rw [sock_after, sock_after]
    exact hcd (isOpen_of_after hopen) (isOpen_of_after hopen')
  · obtain ⟨c, hc, rfl⟩ := List.mem_map.1 hd
    split_ifs with hthis
    · simp only [Bool.and_eq_true, decide_eq_true_eq] at hthis
      obtain ⟨hopen, rfl⟩ := hthis
      exact settled_after (h.settled c hc) hopen hio
    · simp only [Bool.and_eq_true, decide_eq_true_eq, not_and] at hthis
      exact (h.settled c hc).congr fun hopen => L.endpointOf_serve io (hthis hopen)

theorem allSettled_step (h : AllSettled L w) {ev : Ready} (hcan : L.Can w ev)
    (hev : ¬ ev.EndsBehindData) : AllSettled L (L.step w ev) := by
  cases ev with
  | accept sock ip port => exact allSettled_accept h hcan
  | io sock io => exact allSettled_io h hev

/-- The loop saw the end of an open connection and did nothing. -/
def Missed (w : Serving σ) (sock : ℤ) : Prop :=
  ∃ c ∈ w.served, c.isOpen ∧ c.sock = sock ∧ c.sawEof ∧ c.closes = 0

theorem missed_io (h : AllSettled L w) {sock : ℤ} {io : Io} (hcan : L.Can w (.io sock io))
    (hev : (Ready.io sock io).EndsBehindData) : Missed (L.step w (.io sock io)) sock := by
  obtain ⟨c, hc, hopen, rfl⟩ := hcan
  obtain ⟨-, hcloses, -⟩ := (h.settled c hc).ofOpen hopen
  rcases io with reads | _
  · have hclose : SocketCall.close c.sock ∉ (L.serve w.socket c.sock (.readable reads)).2 :=
      fun hmem => L.not_ends_of_data _ _ hev.1 _ hmem trivial
    refine ⟨L.after w.socket (.readable reads) c, List.mem_map.2 ⟨c, hc, by simp [hopen]⟩, ?_, rfl,
      ?_, ?_⟩
    · simp [after, hclose]
    · simp [after, Io.eof, hev.2]
    · simp [after, hcloses, List.count_eq_zero_of_not_mem hclose]
  · exact hev.elim

/-- Only an event on its descriptor could end it now. -/
theorem Missed.step {sock : ℤ} (h : Missed w sock) {ev : Ready} (hne : ev.sock? ≠ some sock) :
    Missed (L.step w ev) sock := by
  obtain ⟨c, hc, hopen, rfl, hmissed⟩ := h
  cases ev with
  | accept sock' ip port =>
    rw [SocketLoop.step]
    split
    · exact ⟨c, hc, hopen, rfl, hmissed⟩
    · exact ⟨c, List.mem_append_left _ hc, hopen, rfl, hmissed⟩
  | io sock' io =>
    have hsock : c.sock ≠ sock' := fun heq => hne (congrArg some heq.symm)
    exact ⟨c, List.mem_map.2 ⟨c, hc, by simp [hsock]⟩, hopen, rfl, hmissed⟩

theorem Missed.turn {sock : ℤ} : ∀ {ready : List Ready} {w : Serving σ}, Missed w sock →
    sock ∉ ready.filterMap Ready.sock? → Missed (L.turn w ready) sock
  | [], _, h, _ => h
  | ev :: ready, w, h, hnot => by
    have hev : ev.sock? ≠ some sock := fun heq =>
      hnot (List.mem_filterMap.2 ⟨ev, List.mem_cons_self, heq⟩)
    show Missed (L.turn (L.step w ev) ready) sock
    refine Missed.turn (h.step hev) fun hmem => hnot ?_
    obtain ⟨ev', hmem, heq⟩ := List.mem_filterMap.1 hmem
    exact List.mem_filterMap.2 ⟨ev', List.mem_cons_of_mem _ hmem, heq⟩

theorem turn_cases : ∀ {ready : List Ready} {w : Serving σ}, AllSettled L w → L.CanTurn w ready →
    ((∀ ev ∈ ready, ¬ ev.EndsBehindData) ∧ AllSettled L (L.turn w ready)) ∨
      ((∃ ev ∈ ready, ev.EndsBehindData) ∧ ∃ sock, Missed (L.turn w ready) sock)
  | [], _, h, _ => .inl ⟨by simp, h⟩
  | ev :: ready, w, h, ⟨hnodup, hcan, hcans⟩ => by
    have hrest : (ready.filterMap Ready.sock?).Nodup :=
      hnodup.sublist ((List.sublist_cons_self ev ready).filterMap _)
    by_cases hev : ev.EndsBehindData
    · refine .inr ⟨⟨ev, List.mem_cons_self, hev⟩, ?_⟩
      rcases ev with _ | ⟨sock, io⟩
      · exact hev.elim
      · have hmissed := missed_io h hcan hev
        exact ⟨sock, hmissed.turn (List.nodup_cons.1 hnodup).1⟩
    · rcases turn_cases (allSettled_step h hcan hev) ⟨hrest, hcans⟩ with ⟨hall, hsettled⟩ |
        ⟨⟨ev', hmem, hev'⟩, hmissed⟩
      · refine .inl ⟨fun ev' hmem => ?_, hsettled⟩
        rcases List.mem_cons.1 hmem with rfl | hmem
        · exact hev
        · exact hall ev' hmem
      · exact .inr ⟨⟨ev', List.mem_cons_of_mem _ hmem, hev'⟩, hmissed⟩

theorem keepsOpen (w : Serving σ) (ev : Ready) : L.KeepsOpen w ev := by
  rcases ev with _ | ⟨sock, reads | _⟩
  · trivial
  · exact fun hdata _ => not_ends_of_data w.socket sock hdata
  · trivial

theorem AllSettled.detects (h : AllSettled L (L.turn w ready)) : L.Detects w ready := by
  refine ⟨fun c hc heof => (h.settled c hc).ofClosed ?_, along_of_forall keepsOpen _ _⟩
  by_contra hopen
  rw [Bool.not_eq_false] at hopen
  rw [((h.settled c hc).ofOpen hopen).1] at heof
  cases heof

theorem Missed.not_detects {sock : ℤ} (h : Missed (L.turn w ready) sock) :
    ¬ L.Detects w ready := by
  intro hdetects
  obtain ⟨c, hc, -, -, heof, hcloses⟩ := h
  have hone := (hdetects.1 c hc heof).1
  omega

theorem detects_turn_iff (h : AllSettled L w) (hcan : L.CanTurn w ready) :
    L.Detects w ready ↔ ∀ ev ∈ ready, ¬ ev.EndsBehindData := by
  rcases turn_cases h hcan with ⟨hall, hsettled⟩ | ⟨⟨ev, hmem, hev⟩, sock, hmissed⟩
  · exact ⟨fun _ => hall, fun _ => hsettled.detects⟩
  · exact ⟨fun hdetects => absurd hdetects hmissed.not_detects, fun hall => absurd hev (hall ev hmem)⟩

/-- Turn by turn, from any state in which nothing was missed. -/
theorem detects_run_iff : ∀ {turns : List (List Ready)} {w : Serving σ}, AllSettled L w →
    Along L.turn L.CanTurn w turns →
      (Along L.turn L.Detects w turns ↔ ∀ ready ∈ turns, ∀ ev ∈ ready, ¬ ev.EndsBehindData)
  | [], _, _, _ => by simp [Along]
  | ready :: turns, w, h, ⟨hcan, hcans⟩ => by
    rw [Along, detects_turn_iff h hcan, List.forall_mem_cons]
    refine and_congr_right fun hall => ?_
    rcases turn_cases h hcan with ⟨-, hsettled⟩ | ⟨⟨ev, hmem, hev⟩, -⟩
    · exact detects_run_iff hsettled hcans
    · exact absurd hev (hall ev hmem)

end SocketLoop

namespace Serving

open SocketLoop

theorem allSettled_listening (port : Port) :
    AllSettled SocketAccept.loop (listening port) where
  apart := .nil
  settled c hc := by cases hc

theorem allSettled_connected (sock : ℤ) (ip : IPAddr) (port localPort : Port) :
    AllSettled SocketConnect.loop (connected sock ip port localPort) where
  apart := List.pairwise_singleton _ _
  settled c hc := by
    rw [List.mem_singleton.1 hc]
    exact ⟨fun _ => ⟨rfl, rfl, rfl, rfl⟩, fun hclosed => by cases hclosed⟩

/-- In `Listen` and in `Connect`, each connection a read of which returned 0 is closed, reported once
and erased before the next `epoll_wait`, and none is that was read up to an `EAGAIN` after data,
exactly when no event returns data before a 0. -/
theorem detects_iff (listenPort port localPort : Port) (ip : IPAddr) (sock : ℤ)
    (listens connects : List (List Ready))
    (hlistens : Along SocketAccept.loop.turn SocketAccept.loop.CanTurn (listening listenPort)
      listens)
    (hconnects : Along SocketConnect.loop.turn SocketConnect.loop.CanTurn
      (connected sock ip port localPort) connects) :
    (Along SocketAccept.loop.turn SocketAccept.loop.Detects (listening listenPort) listens ↔
      ∀ ready ∈ listens, ∀ ev ∈ ready, ¬ ev.EndsBehindData) ∧
    (Along SocketConnect.loop.turn SocketConnect.loop.Detects (connected sock ip port localPort)
        connects ↔
      ∀ ready ∈ connects, ∀ ev ∈ ready, ¬ ev.EndsBehindData) :=
  ⟨detects_run_iff (allSettled_listening listenPort) hlistens,
    detects_run_iff (allSettled_connected sock ip port localPort) hconnects⟩

def byteA : Chunk := ⟨[65], by simp, by simp [CInt.intMax]⟩

/-- A byte is read, then in an event of its own the end of the file. -/
def endsAlone : List (List Ready) :=
  [[.io 7 (.readable ⟨[byteA], .again⟩)], [.io 7 (.readable ⟨[], .eof⟩)]]

theorem detects_endsAlone :
    Along SocketAccept.loop.turn SocketAccept.loop.Detects (listening 80)
        ([.accept 7 [49] 5000] :: endsAlone) ∧
      Along SocketConnect.loop.turn SocketConnect.loop.Detects (connected 7 [49] 80 5000)
        endsAlone := by
  have h := detects_iff 80 80 5000 [49] 7 ([.accept 7 [49] 5000] :: endsAlone) endsAlone
    (by decide +kernel) (by decide +kernel)
  exact ⟨h.1.2 (by simp [endsAlone, Ready.EndsBehindData]),
    h.2.2 (by simp [endsAlone, Ready.EndsBehindData])⟩

/-- The end of the file comes behind a byte, in one event. -/
def endsBehindByte : List (List Ready) :=
  [[.accept 7 [49] 5000], [.io 7 (.readable ⟨[byteA], .eof⟩)]]

theorem not_detects_endsBehindByte :
    ¬ ∀ turns, Along SocketAccept.loop.turn SocketAccept.loop.CanTurn (listening 80) turns →
      Along SocketAccept.loop.turn SocketAccept.loop.Detects (listening 80) turns := by
  intro h
  obtain ⟨-, hdetects, -⟩ := h endsBehindByte (by decide +kernel)
  have hends := hdetects.1
  revert hends
  decide +kernel

end Serving

end Elegance
