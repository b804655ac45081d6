import Elegance.CompletionPort
import Elegance.Lib.Run

/-!
# Each connection is served by one thread at a time

A connection has one receive, which the kernel, the port or a thread has, or nobody once it is freed
(`RecvAt`). So however the threads go on, the calls about a connection are made one after another,
with the bytes in the order they arrived (`received_inOrder`).
-/

namespace Elegance

open Machine

namespace CompletionPort

/-- Where the receive of a connection is. -/
inductive RecvAt where
  | receiving
  | queued (c : Completion)
  | has (c : Completion) (next : ServerWorkStep)
  | freed

namespace RecvAt

/-- No thread has looked at it. -/
def waits : RecvAt → Bool
  | .receiving | .queued _ | .has _ .dispatch => true
  | _ => false

/-- `OnDisconnect` was called. -/
def ended : RecvAt → Bool
  | .has _ .onDisconnect | .has _ .erase | .has _ .closeHandle | .has _ .globalFree | .freed => true
  | _ => false

/-- The connection is in the tables no more. -/
def erased : RecvAt → Bool
  | .has _ .closeHandle | .has _ .globalFree | .freed => true
  | _ => false

/-- A thread is past the `CloseHandle` of it. -/
def closed : RecvAt → Bool
  | .has _ .globalFree | .freed => true
  | _ => false

/-- The completion no thread has looked at. -/
def completion : RecvAt → Option Completion
  | .queued c | .has c .dispatch => some c
  | _ => none

/-- How many bytes are in the buffer and not handed over. -/
def due (p : RecvAt) : ℕ := p.completion.elim 0 Completion.bytesTransferred

end RecvAt

variable {n : ℕ} {place : ℕ → RecvAt} {k : ℕ} {p : RecvAt} {c : Completion}

section Places

/-- The kernel has the receives that are started. -/
structure PostedAt (posted : List ℕ) (place : ℕ → RecvAt) : Prop where
  mem_iff : ∀ k, k ∈ posted ↔ place k = .receiving
  nodup : posted.Nodup

structure PortAt (port : List Completion) (place : ℕ → RecvAt) : Prop where
  queued : ∀ c ∈ port, c.type = .recv → place c.connection = .queued c
  of_queued : ∀ k c, place k = .queued c → c ∈ port ∧ c.connection = k ∧ c.type = .recv
  once : (port.filter (·.type = .recv)).Nodup

structure WorkersAt (workers : Fin n → ServerWorkAt) (place : ℕ → RecvAt) : Prop where
  has : ∀ i c next, workers i = .has c next → c.type = .recv → place c.connection = .has c next
  of_has : ∀ k c next, place k = .has c next →
    c.connection = k ∧ c.type = .recv ∧ ∃ i, workers i = .has c next
  inj : ∀ i i' c c' next next', workers i = .has c next → workers i' = .has c' next' →
    c.type = .recv → c'.type = .recv → c.connection = c'.connection → i = i'
  receives : ∀ i c next, workers i = .has c next → c.type = .recv → next ≠ .send

/-- The completion is of a send that went well, and the memory of its connection is not freed. -/
def SendGoes (connections : List IocpConnection) (c : Completion) : Prop :=
  c.ends = false ∧ ∃ connection, connections[c.connection]? = some connection ∧
    connection.freed = false

structure SendsAt (port : List Completion) (workers : Fin n → ServerWorkAt)
    (connections : List IocpConnection) : Prop where
  port : ∀ c ∈ port, c.type = .send → SendGoes connections c
  workers : ∀ i c next, workers i = .has c next → c.type = .send → next ≠ .returned →
    (next = .dispatch ∨ next = .send) ∧ SendGoes connections c

variable {posted : List ℕ} {port : List Completion} {workers : Fin n → ServerWorkAt} {i : Fin n}
  {next next' : ServerWorkStep}

theorem PostedAt.elsewhere (h : PostedAt posted place) (hk : place k ≠ .receiving)
    (hp : p ≠ .receiving) : PostedAt posted (Function.update place k p) where
  mem_iff j := by
    by_cases hj : j = k
    · subst hj
      simp [h.mem_iff, hk, hp]
    · simp [h.mem_iff, hj]
  nodup := h.nodup

theorem PostedAt.post (h : PostedAt posted place) (hk : place k ≠ .receiving) :
    PostedAt (posted ++ [k]) (Function.update place k .receiving) where
  mem_iff j := by
    by_cases hj : j = k
    · simp [hj]
    · simp [h.mem_iff, hj]
  nodup := by
    rw [← List.concat_eq_append]
    exact h.nodup.concat fun hmem => hk ((h.mem_iff k).1 hmem)

theorem PostedAt.complete (h : PostedAt posted place) (hp : p ≠ .receiving) :
    PostedAt (posted.erase k) (Function.update place k p) where
  mem_iff j := by
    rw [h.nodup.mem_erase_iff, h.mem_iff]
    by_cases hj : j = k
    · simp [hj, hp]
    · simp [hj]
  nodup := h.nodup.erase k

theorem PortAt.elsewhere (h : PortAt port place) (hk : ∀ c, place k ≠ .queued c)
    (hp : ∀ c, p ≠ .queued c) : PortAt port (Function.update place k p) where
  queued c hc hrecv := by
    have hne : c.connection ≠ k := fun hck => hk c (hck ▸ h.queued c hc hrecv)
    rw [Function.update_of_ne hne]
    exact h.queued c hc hrecv
  of_queued j c hj := by
    rcases eq_of_update hj with ⟨-, hj⟩ | ⟨-, hj⟩
    · exact absurd hj (hp c)
    · exact h.of_queued j c hj
  once := h.once

theorem PortAt.push (h : PortAt port place) (hk : ∀ c, place k ≠ .queued c)
    (hc : c.connection = k) (hrecv : c.type = .recv) :
    PortAt (port ++ [c]) (Function.update place k (.queued c)) where
  queued c' hc' hrecv' := by
    rcases List.mem_append.1 hc' with hc' | hc'
    · have hne : c'.connection ≠ k := fun hck => hk c' (hck ▸ h.queued c' hc' hrecv')
      rw [Function.update_of_ne hne]
      exact h.queued c' hc' hrecv'
    · rw [List.mem_singleton.1 hc', hc, Function.update_self]
  of_queued j c' hj := by
    rcases eq_of_update hj with ⟨hjk, hj⟩ | ⟨-, hj⟩
    · cases hj
      exact ⟨by simp, hc.trans hjk.symm, hrecv⟩
    · exact (h.of_queued j c' hj).imp_left (List.mem_append_left _)
  once := by
    rw [List.filter_append, List.filter_cons, if_pos (by simpa using hrecv), List.filter_nil,
      ← List.concat_eq_append]
    refine h.once.concat fun hmem => ?_
    have hqueued := h.queued c (List.mem_filter.1 hmem).1 hrecv
    rw [hc] at hqueued
    exact hk c hqueued

theorem PortAt.push_send (h : PortAt port place) (hsend : c.type = .send) :
    PortAt (port ++ [c]) place where
  queued c' hc' hrecv := by
    rcases List.mem_append.1 hc' with hc' | hc'
    · exact h.queued c' hc' hrecv
    · rw [List.mem_singleton.1 hc', hsend] at hrecv
      cases hrecv
  of_queued j c' hj := (h.of_queued j c' hj).imp_left (List.mem_append_left _)
  once := by
    rw [List.filter_append, List.filter_cons, if_neg (by simp [hsend]), List.filter_nil,
      List.append_nil]
    exact h.once

theorem PortAt.pop (h : PortAt (c :: port) place) (hrecv : c.type = .recv)
    (hp : ∀ c, p ≠ .queued c) : PortAt port (Function.update place c.connection p) where
  queued c' hc' hrecv' := by
    have honce := h.once
    rw [List.filter_cons, if_pos (by simpa using hrecv), List.nodup_cons] at honce
    have hne : c'.connection ≠ c.connection := fun hck => by
      have hqueued := h.queued c List.mem_cons_self hrecv
      rw [← hck, h.queued c' (List.mem_cons_of_mem c hc') hrecv'] at hqueued
      cases hqueued
      exact honce.1 (List.mem_filter.2 ⟨hc', by simpa using hrecv⟩)
    rw [Function.update_of_ne hne]
    exact h.queued c' (List.mem_cons_of_mem c hc') hrecv'
  of_queued j c' hj := by
    rcases eq_of_update hj with ⟨-, hj⟩ | ⟨hjk, hj⟩
    · exact absurd hj (hp c')
    · obtain ⟨hc', hconnection, hrecv'⟩ := h.of_queued j c' hj
      refine ⟨?_, hconnection, hrecv'⟩
      refine (List.mem_cons.1 hc').resolve_left fun heq => hjk ?_
      rw [← hconnection, heq]
  once := by
    have honce := h.once
    rw [List.filter_cons, if_pos (by simpa using hrecv)] at honce
    exact honce.of_cons

theorem PortAt.pop_send (h : PortAt (c :: port) place) (hsend : c.type = .send) :
    PortAt port place where
  queued c' hc' := h.queued c' (List.mem_cons_of_mem c hc')
  of_queued j c' hj := by
    obtain ⟨hc', hconnection, hrecv⟩ := h.of_queued j c' hj
    refine ⟨(List.mem_cons.1 hc').resolve_left fun heq => ?_, hconnection, hrecv⟩
    rw [heq, hsend] at hrecv
    cases hrecv
  once := by
    have honce := h.once
    rwa [List.filter_cons, if_neg (by simp [hsend])] at honce

theorem WorkersAt.elsewhere (h : WorkersAt workers place) (hk : ∀ c next, place k ≠ .has c next)
    (hp : ∀ c next, p ≠ .has c next) : WorkersAt workers (Function.update place k p) where
  has i c next hi hrecv := by
    have hplace := h.has i c next hi hrecv
    have hne : c.connection ≠ k := fun hck => hk c next (hck ▸ hplace)
    rwa [Function.update_of_ne hne]
  of_has j c next hj := by
    rcases eq_of_update hj with ⟨-, hj⟩ | ⟨-, hj⟩
    · exact absurd hj (hp c next)
    · exact h.of_has j c next hj
  inj := h.inj
  receives := h.receives

/-- A thread without a receive takes one, or goes on with the one it has. -/
theorem WorkersAt.goes (h : WorkersAt workers place) (hrecv : c.type = .recv)
    (hnext' : next' ≠ .send)
    (hi : ∀ c' next, workers i = .has c' next → c'.type = .recv → c'.connection = c.connection)
    (hk : ∀ c' next, place c.connection = .has c' next → workers i = .has c' next) :
    WorkersAt (Function.update workers i (.has c next'))
      (Function.update place c.connection (.has c next')) := by
  have hother : ∀ j c' next, j ≠ i → workers j = .has c' next → c'.type = .recv →
      c'.connection ≠ c.connection := fun j c' next hji hj hrecv' hcc => by
    have hplace := h.has j c' next hj hrecv'
    rw [hcc] at hplace
    exact hji (h.inj j i c' c' next next hj (hk c' next hplace) hrecv' hrecv' rfl)
  constructor
  · intro j c' next hj hrecv'
    rcases eq_of_update hj with ⟨-, hj⟩ | ⟨hji, hj⟩
    · cases hj
      rw [Function.update_self]
    · rw [Function.update_of_ne (hother j c' next hji hj hrecv')]
      exact h.has j c' next hj hrecv'
  · intro j c' next hj
    rcases eq_of_update hj with ⟨hjk, hj⟩ | ⟨hjk, hj⟩
    · cases hj
      exact ⟨hjk.symm, hrecv, i, Function.update_self _ _ _⟩
    · obtain ⟨hconnection, hrecv', l, hl⟩ := h.of_has j c' next hj
      have hli : l ≠ i := fun hli => hjk (hconnection ▸ hi c' next (hli ▸ hl) hrecv')
      exact ⟨hconnection, hrecv', l, by rwa [Function.update_of_ne hli]⟩
  · intro j l c₁ c₂ next₁ next₂ hj hl hrecv₁ hrecv₂ hcc
    rcases eq_of_update hj with ⟨hji, hj⟩ | ⟨hji, hj⟩ <;>
      rcases eq_of_update hl with ⟨hli, hl⟩ | ⟨hli, hl⟩
    · rw [hji, hli]
    · cases hj
      exact absurd hcc.symm (hother l c₂ next₂ hli hl hrecv₂)
    · cases hl
      exact absurd hcc (hother j c₁ next₁ hji hj hrecv₁)
    · exact h.inj j l c₁ c₂ next₁ next₂ hj hl hrecv₁ hrecv₂ hcc
  · intro j c' next hj hrecv'
    rcases eq_of_update hj with ⟨-, hj⟩ | ⟨-, hj⟩
    · cases hj
      exact hnext'
    · exact h.receives j c' next hj hrecv'

/-- A thread is done with the completion it has. -/
theorem WorkersAt.leaves (h : WorkersAt workers place) (hrecv : c.type = .recv)
    (hi : workers i = .has c next) (hp : ∀ c next, p ≠ .has c next) :
    WorkersAt (Function.update workers i .getQueued) (Function.update place c.connection p) := by
  have hold : ∀ j c' next', Function.update workers i .getQueued j = .has c' next' →
      j ≠ i ∧ workers j = .has c' next' := fun j c' next' hj =>
    (eq_of_update hj).resolve_left fun h => by cases h.2
  constructor
  · intro j c' next' hj hrecv'
    obtain ⟨hji, hj⟩ := hold j c' next' hj
    have hne : c'.connection ≠ c.connection := fun hcc =>
      hji (h.inj j i c' c next' next hj hi hrecv' hrecv hcc)
    rw [Function.update_of_ne hne]
    exact h.has j c' next' hj hrecv'
  · intro j c' next' hj
    rcases eq_of_update hj with ⟨-, hj⟩ | ⟨hjk, hj⟩
    · exact absurd hj (hp c' next')
    · obtain ⟨hconnection, hrecv', l, hl⟩ := h.of_has j c' next' hj
      have hli : l ≠ i := by
        rintro rfl
        cases hi.symm.trans hl
        exact hjk hconnection.symm
      exact ⟨hconnection, hrecv', l, by rwa [Function.update_of_ne hli]⟩
  · intro j l c₁ c₂ next₁ next₂ hj hl
    exact h.inj j l c₁ c₂ next₁ next₂ (hold j c₁ next₁ hj).2 (hold l c₂ next₂ hl).2
  · intro j c' next' hj
    exact h.receives j c' next' (hold j c' next' hj).2

/-- A thread takes the completion of a send, goes on with it, or is done with it. -/
theorem WorkersAt.send (h : WorkersAt workers place) {pos : ServerWorkAt}
    (hi : ∀ c next, workers i = .has c next → c.type = .send)
    (hpos : ∀ c next, pos = .has c next → c.type = .send) :
    WorkersAt (Function.update workers i pos) place := by
  have hold : ∀ j c' next', Function.update workers i pos j = .has c' next' →
      c'.type = .recv → workers j = .has c' next' := fun j c' next' hj hrecv => by
    rcases eq_of_update hj with ⟨-, hj⟩ | ⟨-, hj⟩
    · rw [hpos c' next' hj] at hrecv
      cases hrecv
    · exact hj
  constructor
  · intro j c' next' hj hrecv
    exact h.has j c' next' (hold j c' next' hj hrecv) hrecv
  · intro k c' next' hk
    obtain ⟨hconnection, hrecv, j, hj⟩ := h.of_has k c' next' hk
    have hji : j ≠ i := by
      rintro rfl
      rw [hi c' next' hj] at hrecv
      cases hrecv
    exact ⟨hconnection, hrecv, j, by rwa [Function.update_of_ne hji]⟩
  · intro j l c₁ c₂ next₁ next₂ hj hl hrecv₁ hrecv₂
    exact h.inj j l c₁ c₂ next₁ next₂ (hold j c₁ next₁ hj hrecv₁) (hold l c₂ next₂ hl hrecv₂)
      hrecv₁ hrecv₂
  · intro j c' next' hj hrecv
    exact h.receives j c' next' (hold j c' next' hj hrecv) hrecv

variable {connections connections' : List IocpConnection} {port' : List Completion}
  {workers' : Fin n → ServerWorkAt}

/-- No send is new, and none has lost the memory of its connection. -/
theorem SendsAt.congr (h : SendsAt port workers connections)
    (hport : ∀ c ∈ port', c.type = .send → c ∈ port)
    (hworkers : ∀ i c next, workers' i = .has c next → c.type = .send → workers i = .has c next)
    (hconnections : ∀ c, c ∈ port' ∨ (∃ i next, workers' i = .has c next ∧ next ≠ .returned) →
      c.type = .send → SendGoes connections c → SendGoes connections' c) :
    SendsAt port' workers' connections' where
  port c hc hsend := hconnections c (.inl hc) hsend (h.port c (hport c hc hsend) hsend)
  workers i c next hi hsend hnext := by
    obtain ⟨hpos, hgoes⟩ := h.workers i c next (hworkers i c next hi hsend) hsend hnext
    exact ⟨hpos, hconnections c (.inr ⟨i, next, hi, hnext⟩) hsend hgoes⟩

theorem SendGoes.of_freed (h : SendGoes connections c)
    (hfreed : ∀ connection, connections[c.connection]? = some connection →
      connection.freed = false → ∃ connection', connections'[c.connection]? = some connection' ∧
        connection'.freed = false) : SendGoes connections' c :=
  ⟨h.1, let ⟨connection, hk, hf⟩ := h.2; hfreed connection hk hf⟩

/-- A thread goes on with a receive, or without a completion. -/
theorem update_of_not_send {pos : ServerWorkAt}
    (hpos : ∀ c next, pos = .has c next → c.type = .recv) (j : Fin n) (c : Completion)
    (next : ServerWorkStep) (hj : Function.update workers i pos j = .has c next)
    (hsend : c.type = .send) : workers j = .has c next := by
  rcases eq_of_update hj with ⟨-, hj⟩ | ⟨-, hj⟩
  · rw [hpos c next hj] at hsend
    cases hsend
  · exact hj

/-- A thread goes on with the completion of a send. -/
theorem SendsAt.goes (h : SendsAt port workers connections) (hport : port' ⊆ port)
    {pos : ServerWorkAt} (hpos : ∀ c next, pos = .has c next → next ≠ .returned →
      (next = .dispatch ∨ next = .send) ∧ SendGoes connections c) :
    SendsAt port' (Function.update workers i pos) connections where
  port c hc := h.port c (hport hc)
  workers j c next hj hsend hnext := by
    rcases eq_of_update hj with ⟨-, hj⟩ | ⟨-, hj⟩
    · exact hpos c next hj hnext
    · exact h.workers j c next hj hsend hnext

end Places

section Received

@[simp]
theorem received_append (calls calls' : List ISocketHandlerCall) :
    received (calls ++ calls') = received calls ++ received calls' := List.flatMap_append

@[simp]
theorem received_onAccept (endpoint : Endpoint) : received [.onAccept endpoint] = [] := rfl

@[simp]
theorem received_onRecv (endpoint : Endpoint) (data : List Byte) :
    received [.onRecv endpoint data] = data := List.append_nil _

@[simp]
theorem received_onDisconnect (endpoint : Endpoint) : received [.onDisconnect endpoint] = [] := rfl

/-- The calls of a connection whose receive is at a place, `opened` where `OnAccept` was called. -/
structure Told (connection : IocpConnection) (p : RecvAt) (opened : Prop)
    (calls : List ISocketHandlerCall) : Prop where
  freed : connection.freed = true ↔ p = .freed
  closed : connection.closed = true → p.closed = true
  taken_le : connection.taken ≤ connection.arrived.length
  bytes : received calls ++ connection.buffer.take p.due =
    connection.arrived.take connection.taken
  clean : p.waits = true → connection.bytesTransferred = 0
  ends : ∀ c, p.completion = some c → c.ends = true → c.bytesTransferred = 0
  silent : ¬ opened → calls = []
  tells : opened → ∃ datas : List (List Byte), calls = .onAccept connection.endpoint ::
    (datas.map (.onRecv connection.endpoint) ++
      if p.ended then [.onDisconnect connection.endpoint] else [])

variable {connection : IocpConnection} {opened : Prop} {calls : List ISocketHandlerCall}
  {next next' : ServerWorkStep}

theorem told_accepted (sock : ℤ) (endpoint : Endpoint) :
    Told { socket := sock, endpoint } .receiving False [] where
  freed := by simp
  closed := nofun
  taken_le := le_refl _
  bytes := rfl
  clean _ := rfl
  ends c hc := by cases hc
  silent _ := rfl
  tells := False.elim

theorem ended_of_waits (h : p.waits = true) : p.ended = false := by
  cases p with
  | has c next => cases next <;> simp_all [RecvAt.waits, RecvAt.ended]
  | freed => simp [RecvAt.waits] at h
  | _ => rfl

theorem erased_of_waits (h : p.waits = true) : p.erased = false := by
  cases p with
  | has c next => cases next <;> simp_all [RecvAt.waits, RecvAt.erased]
  | freed => simp [RecvAt.waits] at h
  | _ => rfl

theorem erased_of_closed (h : p.erased = false) : p.closed = false := by
  cases p with
  | has c next => cases next <;> simp_all [RecvAt.erased, RecvAt.closed]
  | freed => cases h
  | _ => rfl

theorem Told.open (h : Told connection p opened calls) (hopened : ¬ opened)
    (hwaits : p.waits = true) :
    Told connection p True (calls ++ [.onAccept connection.endpoint]) where
  freed := h.freed
  closed := h.closed
  taken_le := h.taken_le
  bytes := by simpa using h.bytes
  clean := h.clean
  ends := h.ends
  silent hnot := absurd trivial hnot
  tells _ := ⟨[], by simp [h.silent hopened, ended_of_waits hwaits]⟩

theorem Told.arrive (h : Told connection p opened calls) (data : List Byte) :
    Told { connection with arrived := connection.arrived ++ data } p opened calls :=
  { h with
    taken_le := by
      have := h.taken_le
      simp only [List.length_append]
      omega
    bytes := by
      rw [List.take_append_of_le_length h.taken_le]
      exact h.bytes }

theorem Told.complete (h : Told connection .receiving opened calls)
    (hc : c.ends = true → c.bytesTransferred = 0)
    (hle : connection.taken + c.bytesTransferred ≤ connection.arrived.length) :
    Told { connection with
      buffer := (connection.arrived.drop connection.taken).take c.bytesTransferred
      taken := connection.taken + c.bytesTransferred } (.queued c) opened calls :=
  { h with
    freed := by simpa using h.freed
    closed := h.closed
    taken_le := hle
    bytes := by
      have hbytes : received calls ++ connection.buffer.take 0 =
        connection.arrived.take connection.taken := h.bytes
      rw [List.take_zero, List.append_nil] at hbytes
      show received calls ++ ((connection.arrived.drop connection.taken).take
        c.bytesTransferred).take c.bytesTransferred = _
      rw [List.take_take, Nat.min_self, hbytes, List.take_add]
    ends c' hc' := by
      cases hc'
      exact hc }

theorem Told.dequeue (h : Told connection (.queued c) opened calls) :
    Told connection (.has c .dispatch) opened calls :=
  { h with
    freed := by simpa using h.freed
    closed := h.closed }

theorem Told.onRecv (h : Told connection (.has c .dispatch) opened calls) (hopened : opened) :
    Told { connection with
      bytesTransferred := connection.bytesTransferred + c.bytesTransferred } (.has c .onRecv) opened
        (calls ++ [.onRecv connection.endpoint
          (connection.buffer.take (connection.bytesTransferred + c.bytesTransferred))]) :=
  { h with
    freed := by simpa using h.freed
    closed := h.closed
    bytes := by
      have hbytes : received calls ++ connection.buffer.take c.bytesTransferred =
        connection.arrived.take connection.taken := h.bytes
      rw [h.clean rfl, Nat.zero_add, received_append, received_onRecv, hbytes]
      exact List.append_nil _
    clean hwaits := by cases hwaits
    ends c' hc' := by cases hc'
    silent hnot := absurd hopened hnot
    tells _ := by
      obtain ⟨datas, hcalls⟩ := h.tells hopened
      refine ⟨datas ++ [connection.buffer.take
        (connection.bytesTransferred + c.bytesTransferred)], ?_⟩
      rw [hcalls]
      simp [RecvAt.ended] }

theorem Told.onDisconnect (h : Told connection (.has c .dispatch) opened calls) (hopened : opened)
    (hends : c.ends = true) : Told connection (.has c .onDisconnect) opened
      (calls ++ [.onDisconnect connection.endpoint]) :=
  { h with
    freed := by simpa using h.freed
    closed := h.closed
    bytes := by
      have hbytes : received calls ++ connection.buffer.take c.bytesTransferred =
        connection.arrived.take connection.taken := h.bytes
      rw [h.ends c rfl hends, List.take_zero] at hbytes
      rw [received_append, received_onDisconnect, List.append_nil]
      exact hbytes
    clean hwaits := by cases hwaits
    ends c' hc' := by cases hc'
    silent hnot := absurd hopened hnot
    tells _ := by
      obtain ⟨datas, hcalls⟩ := h.tells hopened
      refine ⟨datas, ?_⟩
      rw [hcalls]
      simp [RecvAt.ended] }

/-- From one place to another where nothing is called. -/
theorem Told.moves {p' : RecvAt} {connection' : IocpConnection}
    (h : Told connection p opened calls) (hopened : opened)
    (hsame : connection'.endpoint = connection.endpoint ∧ connection'.buffer = connection.buffer ∧
      connection'.arrived = connection.arrived ∧ connection'.taken = connection.taken)
    (hfreed : connection'.freed = true ↔ p' = .freed)
    (hclosed : connection'.closed = true → p'.closed = true)
    (hclean : p'.waits = true → connection'.bytesTransferred = 0)
    (hnone : p.completion = none) (hnone' : p'.completion = none) (hended : p'.ended = p.ended) :
    Told connection' p' opened calls := by
  obtain ⟨hendpoint, hbuffer, harrived, htaken⟩ := hsame
  have hdue : p'.due = p.due := by rw [RecvAt.due, RecvAt.due, hnone, hnone']
  refine ⟨hfreed, hclosed, ?_, ?_, hclean, ?_, fun hnot => absurd hopened hnot, fun _ => ?_⟩
  · rw [harrived, htaken]
    exact h.taken_le
  · rw [hbuffer, hdue, harrived, htaken]
    exact h.bytes
  · intro c hc
    rw [hnone'] at hc
    cases hc
  · rw [hendpoint, hended]
    exact h.tells hopened

end Received

section Kept

variable {w w' : CompletionPort n}

/-- `OnAccept` was called for the connection. -/
def Opened (w : CompletionPort n) (k : ℕ) : Prop :=
  w.listening ≠ .register k ∧ w.listening ≠ .callOnAccept k

/-- A connection is in the tables until it is erased, and has its `SOCKET` for itself until it is
closed. -/
structure Listed (w : CompletionPort n) (place : ℕ → RecvAt) : Prop where
  find : ∀ k c, w.connections[k]? = some c → (place k).erased = false →
    w.listening ≠ .register k → w.socket.sockEndpointMap.find c.socket = some c.endpoint
  apart : ∀ k k' c c', w.connections[k]? = some c → w.connections[k']? = some c' →
    (place k).closed = false → (place k').closed = false → c.socket = c'.socket → k = k'
  shut : ∀ k k' c c', w.connections[k]? = some c → w.connections[k']? = some c' →
    (place k).closed = false → k' ≠ k → c'.isOpen = true → c'.socket ≠ c.socket

structure Kept (w : CompletionPort n) (place : ℕ → RecvAt) : Prop where
  posted : PostedAt w.posted place
  port : PortAt w.port place
  workers : WorkersAt w.workers place
  sends : SendsAt w.port w.workers w.connections
  beyond : ∀ k, w.connections.length ≤ k → place k = .freed
  listening : ∀ k, w.listening.connection = some k → k < w.connections.length
  /-- No thread has looked at a connection `Listen` is not done with. -/
  waiting : ∀ k, w.listening.connection = some k → (place k).waits = true
  silent : ∀ k, w.connections.length ≤ k → w.callsOf k = []
  told : ∀ k c, w.connections[k]? = some c → Told c (place k) (w.Opened k) (w.callsOf k)
  listed : w.Listed place

theorem kept_start (port : Port) : Kept (start port : CompletionPort n) fun _ => .freed where
  posted := ⟨fun k => by simp [start], List.nodup_nil⟩
  port := ⟨nofun, nofun, List.nodup_nil⟩
  workers := ⟨nofun, nofun, nofun, nofun⟩
  sends := ⟨nofun, nofun⟩
  beyond _ _ := rfl
  listening := nofun
  waiting := nofun
  silent _ _ := rfl
  told := nofun
  listed := ⟨nofun, nofun, nofun⟩

@[simp]
theorem callsOf_goes (w : CompletionPort n) (i : Fin n) (pos : ServerWorkAt) :
    (w.goes i pos).callsOf = w.callsOf := rfl

@[simp]
theorem callsOf_modify (w : CompletionPort n) (k : ℕ) (f : IocpConnection → IocpConnection) :
    (w.modify k f).callsOf = w.callsOf := rfl

@[simp]
theorem callsOf_call_self (w : CompletionPort n) (k : ℕ) (call : ISocketHandlerCall) :
    (w.call k call).callsOf k = w.callsOf k ++ [call] := by
  simp [CompletionPort.call, callsOf]

theorem callsOf_call_ne (w : CompletionPort n) {k k' : ℕ} (h : k' ≠ k)
    (call : ISocketHandlerCall) : (w.call k call).callsOf k' = w.callsOf k' := by
  simp [CompletionPort.call, callsOf, h.symm]

/-- The receive of one connection goes from place to place, and the rest stays. -/
theorem Kept.moved (h : Kept w place) {connection connection' : IocpConnection}
    (hk : w.connections[k]? = some connection)
    (hposted : PostedAt w'.posted (Function.update place k p))
    (hport : PortAt w'.port (Function.update place k p))
    (hworkers : WorkersAt w'.workers (Function.update place k p))
    (hsendPort : ∀ c ∈ w'.port, c.type = .send → c ∈ w.port)
    (hsendWorkers : ∀ i c next, w'.workers i = .has c next → c.type = .send →
      w.workers i = .has c next)
    (hlength : w'.connections.length = w.connections.length)
    (hself : w'.connections[k]? = some connection')
    (hother : ∀ j ≠ k, w'.connections[j]? = w.connections[j]?)
    (hsocket : connection'.socket = connection.socket)
    (hopen : connection'.isOpen = connection.isOpen)
    (hkept : connection'.freed = connection.freed ∨ ¬ w.Sends k)
    (hlistening : w'.listening = w.listening)
    (hwaiting : w.listening.connection = some k → p.waits = true)
    (hcalls : ∀ j ≠ k, w'.callsOf j = w.callsOf j)
    (htold : Told connection' p (w.Opened k) (w'.callsOf k))
    (hendpoint : connection'.endpoint = connection.endpoint)
    (herased : p.erased = false → (place k).erased = false)
    (hclosed : p.closed = false → (place k).closed = false)
    (hfind : ∀ j c, w.connections[j]? = some c → (Function.update place k p j).erased = false →
      w'.socket.sockEndpointMap.find c.socket = w.socket.sockEndpointMap.find c.socket) :
    Kept w' (Function.update place k p) := by
  have hlt : k < w.connections.length := (List.getElem?_eq_some_iff.1 hk).1
  have hplace : ∀ j ≠ k, Function.update place k p j = place j := fun j hj =>
    Function.update_of_ne hj _ _
  -- A connection of the new state was one of the old state, with the same socket and endpoint.
  have hold : ∀ j c, w'.connections[j]? = some c →
      ∃ c₀, w.connections[j]? = some c₀ ∧ c₀.socket = c.socket ∧ c₀.endpoint = c.endpoint ∧
        c₀.isOpen = c.isOpen ∧
        ((Function.update place k p j).erased = false → (place j).erased = false) ∧
        ((Function.update place k p j).closed = false → (place j).closed = false) :=
    fun j c hj => by
      by_cases hjk : j = k
      · subst hjk
        rw [hself, Option.some_inj] at hj
        subst hj
        rw [Function.update_self]
        exact ⟨connection, hk, hsocket.symm, hendpoint.symm, hopen.symm, herased, hclosed⟩
      · rw [hother j hjk] at hj
        rw [hplace j hjk]
        exact ⟨c, hj, rfl, rfl, rfl, id, id⟩
  refine ⟨hposted, hport, hworkers, ?_, fun j hj => ?_, fun j hj => ?_, fun j hj => ?_,
    fun j hj => ?_, fun j c hj => ?_, fun j c hj hjp hreg => ?_,
    fun j l c d hj hl hjp hlp hsame => ?_, fun j l c d hj hl hjp hne hd => ?_⟩
  · refine h.sends.congr hsendPort hsendWorkers fun c hc hsend hgoes =>
      hgoes.of_freed fun c₀ hc₀ hf => ?_
    by_cases hck : c.connection = k
    · rw [hck] at hc₀ ⊢
      rw [hk, Option.some_inj] at hc₀
      subst hc₀
      refine ⟨connection', hself, ?_⟩
      rcases hkept with hsame | hnot
      · rw [hsame, hf]
      · refine absurd ?_ hnot
        rcases hc with hc | ⟨i, next, hi, hnext⟩
        · exact .inl ⟨c, hsendPort c hc hsend, hsend, hck⟩
        · refine .inr ⟨i, ?_⟩
          rw [hsendWorkers i c next hi hsend]
          exact ⟨hsend, hck, hnext⟩
    · exact ⟨c₀, by rw [hother _ hck, hc₀], hf⟩
  · rw [hlength] at hj
    rw [hplace j (by omega)]
    exact h.beyond j hj
  · rw [hlistening] at hj
    rw [hlength]
    exact h.listening j hj
  · rw [hlistening] at hj
    by_cases hjk : j = k
    · subst hjk
      rw [Function.update_self]
      exact hwaiting hj
    · rw [hplace j hjk]
      exact h.waiting j hj
  · rw [hlength] at hj
    rw [hcalls j (by omega)]
    exact h.silent j hj
  · have hopened : w'.Opened j = w.Opened j := by rw [Opened, Opened, hlistening]
    rw [hopened]
    by_cases hjk : j = k
    · subst hjk
      rw [hself, Option.some_inj] at hj
      subst hj
      rw [Function.update_self]
      exact htold
    · rw [hother j hjk] at hj
      rw [hplace j hjk, hcalls j hjk]
      exact h.told j c hj
  · obtain ⟨c₀, hc₀, hs, he, -, hp₀, -⟩ := hold j c hj
    rw [hlistening] at hreg
    have hfound := hfind j c₀ hc₀ hjp
    rw [← hs, ← he, hfound]
    exact h.listed.find j c₀ hc₀ (hp₀ hjp) hreg
  · obtain ⟨c₀, hc₀, hcs, -, -, -, hcp⟩ := hold j c hj
    obtain ⟨d₀, hd₀, hds, -, -, -, hdp⟩ := hold l d hl
    exact h.listed.apart j l c₀ d₀ hc₀ hd₀ (hcp hjp) (hdp hlp) (hcs.trans (hsame.trans hds.symm))
  · obtain ⟨c₀, hc₀, hcs, -, -, -, hcp⟩ := hold j c hj
    obtain ⟨d₀, hd₀, hds, -, hdo, -, -⟩ := hold l d hl
    rw [← hcs, ← hds]
    exact h.listed.shut j l c₀ d₀ hc₀ hd₀ (hcp hjp) hne (hdo.trans hd)

end Kept

section Steps

variable {w : CompletionPort n} {i : Fin n} {connection : IocpConnection}
  {next next' : ServerWorkStep}

/-- What a thread has, the invariant knows. -/
theorem Kept.place_eq (h : Kept w place) (hi : w.workers i = .has c next) (hrecv : c.type = .recv) :
    place c.connection = .has c next := h.workers.has i c next hi hrecv

theorem Kept.connection_of_has (h : Kept w place) (hi : w.workers i = .has c next)
    (hrecv : c.type = .recv) : ∃ connection, w.connections[c.connection]? = some connection := by
  have hplace := h.place_eq hi hrecv
  by_contra hnone
  have hlen : w.connections.length ≤ c.connection :=
    List.getElem?_eq_none_iff.1 (Option.eq_none_iff_forall_not_mem.2 fun x hx => hnone ⟨x, hx⟩)
  rw [h.beyond _ hlen] at hplace
  cases hplace

/-- A thread with a receive goes on, and keeps it. -/
theorem Kept.goes (h : Kept w place) (hi : w.workers i = .has c next) (hrecv : c.type = .recv)
    (hk : w.connections[c.connection]? = some connection) (hnext' : next' ≠ .send)
    {w' : CompletionPort n} {connection' : IocpConnection}
    (hposted : w'.posted = w.posted) (hport : w'.port = w.port)
    (hworkers : w'.workers = Function.update w.workers i (.has c next'))
    (hlength : w'.connections.length = w.connections.length)
    (hself : w'.connections[c.connection]? = some connection')
    (hother : ∀ j ≠ c.connection, w'.connections[j]? = w.connections[j]?)
    (hsocket : connection'.socket = connection.socket)
    (hopen : connection'.isOpen = connection.isOpen)
    (hlistening : w'.listening = w.listening)
    (hreported : w.listening.connection ≠ some c.connection)
    (hcalls : ∀ j ≠ c.connection, w'.callsOf j = w.callsOf j)
    (htold : Told connection' (.has c next') (w.Opened c.connection) (w'.callsOf c.connection))
    (hendpoint : connection'.endpoint = connection.endpoint)
    (herased : RecvAt.erased (.has c next') = false → RecvAt.erased (.has c next) = false)
    (hclosed : RecvAt.closed (.has c next') = false → RecvAt.closed (.has c next) = false)
    (hfind : ∀ j d, w.connections[j]? = some d →
      (Function.update place c.connection (.has c next') j).erased = false →
      w'.socket.sockEndpointMap.find d.socket = w.socket.sockEndpointMap.find d.socket) :
    Kept w' (Function.update place c.connection (.has c next')) := by
  have hplace := h.place_eq hi hrecv
  have hfreed : connection'.freed = connection.freed := by
    have hold := h.told _ _ hk
    rw [hplace] at hold
    rw [Bool.eq_iff_iff, htold.freed, hold.freed]
    simp
  refine h.moved hk ?_ ?_ ?_ (fun _ hc _ => hport ▸ hc) ?_ hlength hself hother
    hsocket hopen (.inl hfreed) hlistening (fun h => absurd h hreported) hcalls htold hendpoint
    ?_ ?_ hfind
  · rw [hposted]
    exact h.posted.elsewhere (by simp [hplace]) (by simp)
  · rw [hport]
    exact h.port.elsewhere (by simp [hplace]) (by simp)
  · rw [hworkers]
    refine h.workers.goes hrecv hnext' (fun c' next₀ hi' _ => ?_) fun c' next₀ hc' => ?_
    · cases hi.symm.trans hi'
      rfl
    · cases hplace.symm.trans hc'
      exact hi
  · rw [hworkers]
    exact update_of_not_send fun c' next₀ hc' => by
      cases hc'
      exact hrecv
  · rw [hplace]
    exact herased
  · rw [hplace]
    exact hclosed

/-- `Listen` is done with a connection whose completion was dispatched. -/
theorem Kept.reported (h : Kept w place) (hi : w.workers i = .has c next) (hrecv : c.type = .recv)
    (hnext : next ≠ .dispatch) : w.listening.connection ≠ some c.connection := fun hlistening => by
  have hwaits := h.waiting _ hlistening
  rw [h.place_eq hi hrecv] at hwaits
  cases next <;> simp [RecvAt.waits] at hwaits hnext

theorem opened_of_reported (h : w.listening.connection ≠ some k) : w.Opened k := by
  constructor <;> intro hlistening <;> exact h (by rw [hlistening]; rfl)

theorem Kept.not_freed (h : Kept w place) (hi : w.workers i = .has c next)
    (hrecv : c.type = .recv) (hk : w.connections[c.connection]? = some connection) :
    connection.freed = false := by
  rw [Bool.eq_false_iff]
  intro hfreed
  have hplace := (h.told _ _ hk).freed.1 hfreed
  rw [h.place_eq hi hrecv] at hplace
  cases hplace

/-- Until it is erased, a connection that was reported is found. -/
theorem Kept.found (h : Kept w place) (hi : w.workers i = .has c next) (hrecv : c.type = .recv)
    (hk : w.connections[c.connection]? = some connection)
    (hlisted : RecvAt.erased (.has c next) = false) (hopened : w.Opened c.connection) :
    w.socket.sockEndpointMap.find connection.socket = some connection.endpoint := by
  refine h.listed.find _ _ hk ?_ hopened.1
  rw [h.place_eq hi hrecv]
  exact hlisted

/-- The connection is changed, and the others are not. -/
theorem getElem?_modify_self {connections : List IocpConnection}
    {f : IocpConnection → IocpConnection} (hk : connections[k]? = some connection) :
    (connections.modify k f)[k]? = some (f connection) := by
  rw [List.getElem?_modify_eq, hk]
  rfl

/-- A thread goes on without a call, and changes no more of the connection than what nobody else
reads. -/
theorem Kept.quiet (h : Kept w place) (next' : ServerWorkStep) (hi : w.workers i = .has c next)
    (hrecv : c.type = .recv) (hk : w.connections[c.connection]? = some connection)
    {f : IocpConnection → IocpConnection}
    (hf : ∀ connection, (f connection).endpoint = connection.endpoint ∧
      (f connection).buffer = connection.buffer ∧ (f connection).arrived = connection.arrived ∧
      (f connection).taken = connection.taken)
    (hsocket : ∀ connection, (f connection).socket = connection.socket ∧
      (f connection).isOpen = connection.isOpen)
    (hfreed : ∀ connection, (f connection).freed = connection.freed)
    (hclosed : ∀ connection, (f connection).closed = true →
      connection.closed = true ∨ RecvAt.closed (.has c next') = true)
    (hnot : RecvAt.closed (.has c next) = false)
    (hnext : next ≠ .dispatch) (hnext' : next' ≠ .dispatch ∧ next' ≠ .send)
    (hended : RecvAt.ended (.has c next') = RecvAt.ended (.has c next))
    (herased : RecvAt.erased (.has c next') = false → RecvAt.erased (.has c next) = false) :
    Kept ((w.modify c.connection f).goes i (.has c next'))
      (Function.update place c.connection (.has c next')) := by
  have htold := h.told _ _ hk
  rw [h.place_eq hi hrecv] at htold
  have hreported := h.reported hi hrecv hnext
  have hnone : ∀ {next : ServerWorkStep}, next ≠ .dispatch →
      RecvAt.completion (.has c next) = none := fun {next} hnext => by
    cases next <;> first | rfl | exact absurd rfl hnext
  have hwaits : ¬ RecvAt.waits (.has c next') = true := by
    cases next' <;> first | exact Bool.false_ne_true | exact absurd rfl hnext'.1
  refine h.goes hi hrecv hk hnext'.2 rfl rfl rfl (List.length_modify _ _ _)
    (getElem?_modify_self hk) (fun j hj => List.getElem?_modify_ne _ _ hj.symm) (hsocket _).1
    (hsocket _).2 rfl hreported (fun j _ => rfl) ?_ (hf _).1 herased (fun _ => hnot)
    fun j d _ _ => rfl
  refine htold.moves (opened_of_reported hreported) (hf _)
    (by simp [hfreed, h.not_freed hi hrecv hk]) (fun hc => ?_) (fun hw => absurd hw hwaits)
    (hnone hnext) (hnone hnext'.1) hended
  refine (hclosed connection hc).resolve_left fun hc => ?_
  have hcontra := htold.closed hc
  rw [hnot] at hcontra
  cases hcontra

theorem modify_id (w : CompletionPort n) (k : ℕ) : w.modify k id = w := by
  unfold CompletionPort.modify
  rw [List.modify_id]

/-- The next receive is started. -/
theorem Kept.post (h : Kept w place) (hi : w.workers i = .has c .wsaRecv) (hrecv : c.type = .recv)
    (hk : w.connections[c.connection]? = some connection) :
    Kept ({ w.modify c.connection fun connection => { connection with bytesTransferred := 0 } with
      posted := w.posted ++ [c.connection] }.goes i .getQueued)
        (Function.update place c.connection .receiving) := by
  have hplace := h.place_eq hi hrecv
  have htold := h.told _ _ hk
  rw [hplace] at htold
  refine h.moved hk (h.posted.post (by simp [hplace]))
    (h.port.elsewhere (by simp [hplace]) (by simp)) (h.workers.leaves hrecv hi (by simp))
    (fun _ hc _ => hc) (update_of_not_send nofun) (List.length_modify _ _ _)
    (getElem?_modify_self hk) (fun j hj => List.getElem?_modify_ne _ _ hj.symm) rfl rfl
    (.inl rfl) rfl (fun _ => rfl) (fun j _ => rfl) ?_ rfl (fun _ => ?_) (fun _ => ?_)
    fun j d _ _ => rfl
  · exact htold.moves (opened_of_reported (h.reported hi hrecv (by simp))) ⟨rfl, rfl, rfl, rfl⟩
      (by simp [h.not_freed hi hrecv hk]) htold.closed (fun _ => rfl) rfl rfl rfl
  · rw [hplace]
    rfl
  · rw [hplace]
    rfl

/-- The memory of a connection that has ended is freed. -/
theorem Kept.free (h : Kept w place) (hi : w.workers i = .has c .globalFree)
    (hrecv : c.type = .recv) (hk : w.connections[c.connection]? = some connection)
    (hsends : ¬ w.Sends c.connection) :
    Kept ((w.modify c.connection fun connection => { connection with freed := true }).goes i
      .getQueued) (Function.update place c.connection .freed) := by
  have hplace := h.place_eq hi hrecv
  have htold := h.told _ _ hk
  rw [hplace] at htold
  refine h.moved hk (h.posted.elsewhere (by simp [hplace]) (by simp))
    (h.port.elsewhere (by simp [hplace]) (by simp)) (h.workers.leaves hrecv hi (by simp))
    (fun _ hc _ => hc) (update_of_not_send nofun) (List.length_modify _ _ _)
    (getElem?_modify_self hk) (fun j hj => List.getElem?_modify_ne _ _ hj.symm) rfl rfl
    (.inr hsends) rfl
    (fun hlistening => absurd hlistening (h.reported hi hrecv (by simp))) (fun j _ => rfl) ?_ rfl
    (fun hnot => by cases hnot) (fun hnot => by cases hnot) fun j d _ _ => rfl
  exact htold.moves (opened_of_reported (h.reported hi hrecv (by simp))) ⟨rfl, rfl, rfl, rfl⟩
    (by simp) (fun _ => rfl) (fun hwaits => by cases hwaits) rfl rfl rfl

/-- The connection is erased from the tables, and no other. -/
theorem Kept.erase (h : Kept w place) (hi : w.workers i = .has c .erase) (hrecv : c.type = .recv)
    (hk : w.connections[c.connection]? = some connection) :
    Kept ({ w with socket := w.socket.closed connection.socket }.goes i (.has c .closeHandle))
      (Function.update place c.connection (.has c .closeHandle)) := by
  have hplace := h.place_eq hi hrecv
  have htold := h.told _ _ hk
  rw [hplace] at htold
  refine h.goes hi hrecv hk (by simp) rfl rfl rfl rfl hk (fun j _ => rfl) rfl rfl rfl
    (h.reported hi hrecv (by simp)) (fun j _ => rfl) ?_ rfl (fun hnot => by cases hnot)
    (fun _ => rfl) fun j d hj hjp => ?_
  · exact htold.moves (opened_of_reported (h.reported hi hrecv (by simp))) ⟨rfl, rfl, rfl, rfl⟩
      (by simp [h.not_freed hi hrecv hk]) htold.closed (fun hwaits => by cases hwaits) rfl rfl rfl
  · have hne : j ≠ c.connection := by
      rintro rfl
      rw [Function.update_self] at hjp
      cases hjp
    rw [Function.update_of_ne hne] at hjp
    refine w.socket.find_closed fun hsame => hne ?_
    exact h.listed.apart _ _ _ _ hj hk (erased_of_closed hjp) (by rw [hplace]; rfl) hsame

theorem Kept.onRecv (h : Kept w place) (hi : w.workers i = .has c .dispatch)
    (hrecv : c.type = .recv) (hk : w.connections[c.connection]? = some connection)
    (hreported : w.listening.connection ≠ some c.connection) :
    Kept (((w.modify c.connection fun connection' => { connection' with
        bytesTransferred := connection.bytesTransferred + c.bytesTransferred }).call c.connection
          (.onRecv connection.endpoint (connection.buffer.take
            (connection.bytesTransferred + c.bytesTransferred)))).goes i (.has c .onRecv))
      (Function.update place c.connection (.has c .onRecv)) := by
  have htold := h.told _ _ hk
  rw [h.place_eq hi hrecv] at htold
  refine h.goes hi hrecv hk (by simp) rfl rfl rfl (List.length_modify _ _ _)
    (getElem?_modify_self hk) (fun j hj => List.getElem?_modify_ne _ _ hj.symm) rfl rfl rfl
    hreported (fun j hj => ?_) ?_ rfl (fun _ => rfl) (fun _ => rfl) fun j d _ _ => rfl
  · exact callsOf_call_ne _ hj _
  · rw [callsOf_goes, callsOf_call_self]
    exact htold.onRecv (opened_of_reported hreported)

theorem Kept.onDisconnect (h : Kept w place) (hi : w.workers i = .has c .dispatch)
    (hrecv : c.type = .recv) (hk : w.connections[c.connection]? = some connection)
    (hreported : w.listening.connection ≠ some c.connection) (hends : c.ends = true) :
    Kept ((w.call c.connection (.onDisconnect connection.endpoint)).goes i (.has c .onDisconnect))
      (Function.update place c.connection (.has c .onDisconnect)) := by
  have htold := h.told _ _ hk
  rw [h.place_eq hi hrecv] at htold
  refine h.goes hi hrecv hk (by simp) rfl rfl rfl rfl hk (fun j _ => rfl) rfl rfl rfl hreported
    (fun j hj => ?_) ?_ rfl (fun _ => rfl) (fun _ => rfl) fun j d _ _ => rfl
  · exact callsOf_call_ne _ hj _
  · rw [callsOf_goes, callsOf_call_self]
    exact htold.onDisconnect (opened_of_reported hreported) hends

/-- Where nothing of the connections changes but which sockets are open, all is kept. -/
theorem Kept.closeSocket (h : Kept w place) (sock : ℤ) : Kept (w.closeSocket sock) place := by
  have hold : ∀ k c, (w.connections.map (IocpConnection.closeSocket sock))[k]? = some c →
      ∃ c₀ : IocpConnection, w.connections[k]? = some c₀ ∧ c = c₀.closeSocket sock :=
    fun k c hk => by
      rw [List.getElem?_map, Option.map_eq_some_iff] at hk
      obtain ⟨c₀, hc₀, rfl⟩ := hk
      exact ⟨c₀, hc₀, rfl⟩
  refine ⟨h.posted, h.port, h.workers, ?_, ?_, ?_, h.waiting, ?_, fun k c hk => ?_,
    fun k c hk => ?_, fun k k' c c' hk hk' => ?_, fun k k' c c' hk hk' hp hne hopen => ?_⟩
  · refine h.sends.congr (fun _ hc _ => hc) (fun _ _ _ hi _ => hi) fun c _ _ hgoes =>
      hgoes.of_freed fun c₀ hc₀ hf => ⟨c₀.closeSocket sock, ?_, hf⟩
    rw [CompletionPort.closeSocket, List.getElem?_map, hc₀]
    rfl
  · simpa [CompletionPort.closeSocket] using h.beyond
  · simpa [CompletionPort.closeSocket] using h.listening
  · rw [CompletionPort.closeSocket, List.length_map]
    exact h.silent
  · obtain ⟨c₀, hc₀, rfl⟩ := hold k c hk
    have htold := h.told k c₀ hc₀
    exact ⟨htold.freed, htold.closed, htold.taken_le, htold.bytes, htold.clean, htold.ends,
      htold.silent, htold.tells⟩
  · obtain ⟨c₀, hc₀, rfl⟩ := hold k c hk
    exact h.listed.find k c₀ hc₀
  · obtain ⟨c₀, hc₀, rfl⟩ := hold k c hk
    obtain ⟨d₀, hd₀, rfl⟩ := hold k' c' hk'
    exact h.listed.apart k k' c₀ d₀ hc₀ hd₀
  · obtain ⟨c₀, hc₀, rfl⟩ := hold k c hk
    obtain ⟨d₀, hd₀, rfl⟩ := hold k' c' hk'
    simp only [IocpConnection.closeSocket, Bool.and_eq_true] at hopen
    exact h.listed.shut k k' c₀ d₀ hc₀ hd₀ hp hne hopen.1

/-- The socket of a connection that has ended is closed, unless `Disconnect` has done so. -/
theorem Kept.closeHandle (h : Kept w place) (hi : w.workers i = .has c .closeHandle)
    (hrecv : c.type = .recv) (hk : w.connections[c.connection]? = some connection) :
    Kept ((w.modify c.connection fun connection => { connection with closed := true }).goes i
      (.has c .globalFree)) (Function.update place c.connection (.has c .globalFree)) :=
  h.quiet .globalFree hi hrecv hk (fun _ => ⟨rfl, rfl, rfl, rfl⟩) (fun _ => ⟨rfl, rfl⟩)
    (fun _ => rfl) (fun _ _ => .inr rfl) rfl (by simp) (by simp) rfl fun hnot => by cases hnot

/-- A thread handles a receive. -/
theorem Kept.handle (h : Kept w place) (hi : w.workers i = .has c next) (hrecv : c.type = .recv)
    (hk : w.connections[c.connection]? = some connection)
    (hreported : w.listening.connection ≠ some c.connection) (failed : Bool)
    (hcareful : w.CarefulWork (.has c next)) (hsend : next ≠ .send) (hreturned : next ≠ .returned) :
    ∃ p, Kept (w.handle i failed c connection next) (Function.update place c.connection p) := by
  have hsame := modify_id w c.connection
  cases next with
  | dispatch =>
    have hfound := h.found hi hrecv hk rfl (opened_of_reported hreported)
    by_cases hends : c.ends = true
    · refine ⟨.has c .onDisconnect, ?_⟩
      simp only [CompletionPort.handle, hends, if_true, hfound]
      exact h.onDisconnect hi hrecv hk hreported hends
    · refine ⟨.has c .onRecv, ?_⟩
      simp only [CompletionPort.handle, hends, hrecv, hfound]
      exact h.onRecv hi hrecv hk hreported
  | onRecv =>
    have hquiet := h.quiet (f := id) .wsaRecv hi hrecv hk
      (fun _ => ⟨rfl, rfl, rfl, rfl⟩) (fun _ => ⟨rfl, rfl⟩) (fun _ => rfl) (fun _ => .inl) rfl
      (by simp) (by simp) rfl fun _ => rfl
    rw [hsame] at hquiet
    exact ⟨_, hquiet⟩
  | wsaRecv =>
    cases failed with
    | true =>
      exact ⟨_, h.quiet .returned hi hrecv hk (fun _ => ⟨rfl, rfl, rfl, rfl⟩)
        (fun _ => ⟨rfl, rfl⟩) (fun _ => rfl) (fun _ => .inl) rfl (by simp) (by simp) rfl
        fun _ => rfl⟩
    | false => exact ⟨_, h.post hi hrecv hk⟩
  | onDisconnect =>
    have hquiet := h.quiet (f := id) .erase hi hrecv hk
      (fun _ => ⟨rfl, rfl, rfl, rfl⟩) (fun _ => ⟨rfl, rfl⟩) (fun _ => rfl) (fun _ => .inl) rfl
      (by simp) (by simp) rfl fun _ => rfl
    rw [hsame] at hquiet
    exact ⟨_, hquiet⟩
  | erase => exact ⟨_, h.erase hi hrecv hk⟩
  | closeHandle =>
    simp only [CompletionPort.handle]
    split_ifs
    · exact ⟨_, h.closeHandle hi hrecv hk⟩
    · have hk' : (w.closeSocket connection.socket).connections[c.connection]? =
          some (connection.closeSocket connection.socket) := by
        rw [CompletionPort.closeSocket, List.getElem?_map, hk]
        rfl
      exact ⟨_, (h.closeSocket _).closeHandle hi hrecv hk'⟩
  | globalFree => exact ⟨_, h.free hi hrecv hk hcareful⟩
  | send => exact absurd rfl hsend
  | returned => exact absurd rfl hreturned

/-- A thread takes the first completion from the port. -/
theorem Kept.dequeue (h : Kept w place) {port : List Completion} (hi : w.workers i = .getQueued)
    (hport : w.port = c :: port) :
    ∃ place', Kept ({ w with port }.goes i (.has c .dispatch)) place' := by
  have hcons := h.port
  rw [hport] at hcons
  cases htype : c.type with
  | send =>
    refine ⟨place, { h with
      port := hcons.pop_send htype
      workers := h.workers.send (fun c' next' hi' => ?_) fun c' next' hc' => ?_
      sends := h.sends.goes (fun c' hc' => hport ▸ List.mem_cons_of_mem c hc')
        fun c' next' hc' _ => ?_
      listed := ⟨h.listed.find, h.listed.apart, h.listed.shut⟩ }⟩
    · cases hi.symm.trans hi'
    · cases hc'
      exact htype
    · cases hc'
      exact ⟨.inl rfl, h.sends.port c (by simp [hport]) htype⟩
  | recv =>
    have hplace := hcons.queued c List.mem_cons_self htype
    have hlt : c.connection < w.connections.length := by
      by_contra hle
      rw [h.beyond _ (not_lt.1 hle)] at hplace
      cases hplace
    have hk := List.getElem?_eq_getElem hlt
    have htold := h.told _ _ hk
    rw [hplace] at htold
    refine ⟨_, h.moved hk (h.posted.elsewhere (by simp [hplace]) (by simp))
      (hcons.pop htype (by simp))
      (h.workers.goes htype (by simp) (fun c' next' hi' => ?_) fun c' next' hc' => ?_)
      (fun c' hc' _ => hport ▸ List.mem_cons_of_mem c hc')
      (update_of_not_send fun c' next' hc' => ?_) rfl hk (fun _ _ => rfl) rfl rfl (.inl rfl) rfl
      (fun _ => rfl) (fun _ _ => rfl) htold.dequeue rfl (fun _ => ?_) (fun _ => ?_)
      fun _ _ _ _ => rfl⟩
    · cases hi.symm.trans hi'
    · cases hplace.symm.trans hc'
    · cases hc'
      exact htype
    · rw [hplace]
      rfl
    · rw [hplace]
      rfl

/-- A thread goes on with a send that went well, or is done with it. -/
theorem Kept.sent (h : Kept w place) (hi : w.workers i = .has c next) (hsend : c.type = .send)
    {pos : ServerWorkAt} (hpos : ∀ c' next', pos = .has c' next' →
      c' = c ∧ (next' ≠ .returned → next' = .send ∧ next ≠ .returned)) :
    Kept (w.goes i pos) place :=
  { h with
    workers := h.workers.send (fun c' next' hi' => by
      cases hi.symm.trans hi'
      exact hsend) fun c' next' hc' => (hpos c' next' hc').1 ▸ hsend
    sends := h.sends.goes (List.Subset.refl _) fun c' next' hc' hnext' => by
      obtain ⟨rfl, hgoes⟩ := hpos c' next' hc'
      obtain ⟨hnext, hold⟩ := hgoes hnext'
      exact ⟨.inr hnext, (h.sends.workers i c' next hi hsend hold).2⟩
    listed := ⟨h.listed.find, h.listed.apart, h.listed.shut⟩ }

/-- A receive is complete. -/
theorem Kept.complete (h : Kept w place) (hk : w.connections[c.connection]? = some connection)
    (hposted : c.connection ∈ w.posted) (hrecv : c.type = .recv)
    (herror : c.getQueueError = true → c.bytesTransferred = 0)
    (hle : connection.taken + c.bytesTransferred ≤ connection.arrived.length) :
    Kept { w.modify c.connection fun connection => { connection with
        buffer := (connection.arrived.drop connection.taken).take c.bytesTransferred
        taken := connection.taken + c.bytesTransferred } with
      posted := w.posted.erase c.connection
      port := w.port ++ [c] } (Function.update place c.connection (.queued c)) := by
  have hplace := (h.posted.mem_iff _).1 hposted
  have htold := h.told _ _ hk
  rw [hplace] at htold
  refine h.moved hk (h.posted.complete (by simp)) (h.port.push (by simp [hplace]) rfl hrecv)
    (h.workers.elsewhere (by simp [hplace]) (by simp)) (fun c' hc' hsend => ?_)
    (fun _ _ _ hi _ => hi) (List.length_modify _ _ _) (getElem?_modify_self hk)
    (fun j hj => List.getElem?_modify_ne _ _ hj.symm) rfl rfl (.inl rfl) rfl
    (fun _ => rfl) (fun _ _ => rfl) (htold.complete (fun hends => ?_) hle) rfl (fun _ => ?_)
    (fun _ => ?_) fun _ _ _ _ => rfl
  · refine (List.mem_append.1 hc').resolve_right fun hc' => ?_
    rw [List.mem_singleton.1 hc', hrecv] at hsend
    cases hsend
  · simp only [Completion.ends, Bool.or_eq_true, decide_eq_true_eq] at hends
    exact hends.elim id herror
  · rw [hplace]
    rfl
  · rw [hplace]
    rfl

theorem Kept.arrive (h : Kept w place) (k : ℕ) (data : List Byte) :
    Kept (w.modify k fun c => { c with arrived := c.arrived ++ data }) place := by
  rcases hk : w.connections[k]? with _ | connection
  · have hsame : w.connections.modify k (fun c => { c with arrived := c.arrived ++ data }) =
        w.connections := List.modify_eq_self (List.getElem?_eq_none_iff.1 hk)
    unfold CompletionPort.modify
    rw [hsame]
    exact h
  · have hsame : Function.update place k (place k) = place := Function.update_eq_self k place
    have hmoved : Kept (w.modify k fun c => { c with arrived := c.arrived ++ data })
        (Function.update place k (place k)) :=
      h.moved hk (by rw [hsame]; exact h.posted) (by rw [hsame]; exact h.port)
        (by rw [hsame]; exact h.workers) (fun _ hc _ => hc) (fun _ _ _ hi _ => hi)
        (List.length_modify _ _ _) (getElem?_modify_self hk)
        (fun j hj => List.getElem?_modify_ne _ _ hj.symm) rfl rfl (.inl rfl) rfl (h.waiting k)
        (fun _ _ => rfl) ((h.told _ _ hk).arrive data) rfl id id fun _ _ _ _ => rfl
    rwa [hsame] at hmoved

theorem Kept.disconnect (h : Kept w place) (ip : IPAddr) (port : Port) :
    Kept (w.step (.disconnect ip port)) place := by
  simp only [step]
  split
  · exact h.closeSocket _
  · exact h

/-- A connection is accepted. -/
theorem Kept.accept (h : Kept w place) {sock : ℤ} (hlistening : w.listening = .accept)
    (hopen : ∀ c ∈ w.connections, c.isOpen = true → c.socket ≠ sock)
    (hclosed : ∀ c ∈ w.connections, c.socket = sock → c.closed = true) (ip : IPAddr) (port : Port) :
    Kept (w.step (.accept sock ip port))
      (Function.update place w.connections.length .receiving) := by
  have hplace := h.beyond _ (le_refl w.connections.length)
  have hne : ∀ k < w.connections.length,
      Function.update place w.connections.length .receiving k = place k := fun k hk =>
    Function.update_of_ne hk.ne _ _
  have hcases : ∀ k c, (w.step (.accept sock ip port)).connections[k]? = some c →
      (k < w.connections.length ∧ w.connections[k]? = some c) ∨
        k = w.connections.length ∧
          c = { socket := sock, endpoint := w.socket.curEndpoint ip port } :=
    fun k c hk => by
      have hk : (w.connections ++ [_])[k]? = some c := hk
      rcases lt_trichotomy k w.connections.length with hlt | rfl | hgt
      · rw [List.getElem?_append_left hlt] at hk
        exact .inl ⟨hlt, hk⟩
      · rw [List.getElem?_append_right (le_refl _), Nat.sub_self] at hk
        exact .inr ⟨rfl, (Option.some.inj hk).symm⟩
      · rw [List.getElem?_eq_none (by simpa using hgt)] at hk
        cases hk
  have hother : ∀ k c, w.connections[k]? = some c → (place k).closed = false → c.socket ≠ sock :=
    fun k c hk hp hsame => by
      have hcontra := (h.told k c hk).closed (hclosed c (List.mem_of_getElem? hk) hsame)
      rw [hp] at hcontra
      cases hcontra
  refine ⟨h.posted.post (by simp [hplace]), h.port.elsewhere (by simp [hplace]) (by simp),
    h.workers.elsewhere (by simp [hplace]) (by simp), ?_, fun k hk => ?_, fun k hk => ?_,
    fun k hk => ?_, fun k hk => ?_, fun k c hk => ?_, fun k c hk hp hreg => ?_,
    fun k k' c c' hk hk' hp hp' hsame => ?_, fun k k' c c' hk hk' hp hne' hopen' => ?_⟩
  · refine h.sends.congr (fun _ hc _ => hc) (fun _ _ _ hi _ => hi) fun c _ _ hgoes =>
      hgoes.of_freed fun c₀ hc₀ hf => ⟨c₀, ?_, hf⟩
    exact (List.getElem?_append_left (List.getElem?_eq_some_iff.1 hc₀).1).trans hc₀
  · simp only [step, List.length_append, List.length_singleton] at hk
    rw [Function.update_of_ne (by omega)]
    exact h.beyond k (by omega)
  · cases hk
    simp [step]
  · cases hk
    rw [Function.update_self]
    rfl
  · simp only [step, List.length_append, List.length_singleton] at hk
    exact h.silent k (by omega)
  · have hcalls : (w.step (.accept sock ip port)).callsOf k = w.callsOf k := rfl
    rw [hcalls]
    rcases hcases k c hk with ⟨hlt, hk⟩ | ⟨rfl, rfl⟩
    · have hopened : (w.step (.accept sock ip port)).Opened k = w.Opened k := by
        simp [Opened, step, hlistening, hlt.ne']
      rw [hopened, hne k hlt]
      exact h.told k c hk
    · rw [Function.update_self, h.silent _ (le_refl _)]
      have hopened : (w.step (.accept sock ip port)).Opened w.connections.length = False := by
        simp [Opened, step]
      rw [hopened]
      exact told_accepted _ _
  · rcases hcases k c hk with ⟨hlt, hk⟩ | ⟨rfl, rfl⟩
    · rw [hne k hlt] at hp
      exact h.listed.find k c hk hp (by simp [hlistening])
    · exact absurd rfl hreg
  · rcases hcases k c hk with ⟨hlt, hk⟩ | ⟨rfl, rfl⟩ <;>
      rcases hcases k' c' hk' with ⟨hlt', hk'⟩ | ⟨rfl, rfl⟩
    · rw [hne k hlt] at hp
      rw [hne k' hlt'] at hp'
      exact h.listed.apart k k' c c' hk hk' hp hp' hsame
    · rw [hne k hlt] at hp
      exact absurd hsame (hother k c hk hp)
    · rw [hne k' hlt'] at hp'
      exact absurd hsame.symm (hother k' c' hk' hp')
    · rfl
  · rcases hcases k c hk with ⟨hlt, hk⟩ | ⟨rfl, rfl⟩ <;>
      rcases hcases k' c' hk' with ⟨hlt', hk'⟩ | ⟨rfl, rfl⟩
    · rw [hne k hlt] at hp
      exact h.listed.shut k k' c c' hk hk' hp hne' hopen'
    · rw [hne k hlt] at hp
      exact (hother k c hk hp).symm
    · exact hopen c' (List.mem_of_getElem? hk') hopen'
    · exact absurd rfl hne'

/-- `Listen` goes on with the connection it accepted. -/
theorem Kept.listen (h : Kept w place) (hlistening : w.listening ≠ .accept) :
    Kept w.listen place := by
  have hconnection : ∀ k, w.listening.connection = some k →
      ∃ c, w.connections[k]? = some c := fun k hk =>
    ⟨_, List.getElem?_eq_getElem (h.listening k hk)⟩
  unfold CompletionPort.listen
  split
  · rename_i haccept
    exact absurd haccept hlistening
  · rename_i k hregister
    obtain ⟨connection, hk⟩ := hconnection k (by rw [hregister]; rfl)
    have hwaits := h.waiting k (by rw [hregister]; rfl)
    have hlisted : (place k).erased = false := erased_of_waits hwaits
    rw [hk]
    refine { h with
      listening := fun j hj => h.listening j (by rw [hregister]; exact hj)
      waiting := fun j hj => h.waiting j (by rw [hregister]; exact hj)
      told := fun j c hj => ?_
      listed := ⟨fun j c hj hjp _ => ?_, h.listed.apart, h.listed.shut⟩ }
    · have hopened : w.Opened j = Opened { w with listening := .callOnAccept k } j := by
        simp [Opened, hregister]
      have htold := h.told j c hj
      rw [hopened] at htold
      exact htold
    · show (w.socket.sockEndpointMap.set connection.socket connection.endpoint).find c.socket = _
      rw [StdMap.find_set_eq]
      split_ifs with hsame
      · have hjk := h.listed.apart j k c connection hj hk (erased_of_closed hjp)
          (erased_of_closed hlisted) hsame
        subst hjk
        rw [hk] at hj
        rw [Option.some.inj hj]
      · refine h.listed.find j c hj hjp fun hreg => hsame ?_
        rw [hregister] at hreg
        cases hreg
        rw [hk] at hj
        rw [Option.some.inj hj]
  · rename_i k hcall
    obtain ⟨connection, hk⟩ := hconnection k (by rw [hcall]; rfl)
    have hwaits := h.waiting k (by rw [hcall]; rfl)
    rw [hk]
    refine { h with
      listening := fun j hj => h.listening j (by rw [hcall]; exact hj)
      waiting := fun j hj => h.waiting j (by rw [hcall]; exact hj)
      silent := fun j hj => ?_
      told := fun j c hj => ?_
      listed := ⟨fun j c hj hjp _ => h.listed.find j c hj hjp (by simp [hcall]), h.listed.apart,
        h.listed.shut⟩ }
    · have hlt : k < w.connections.length := (List.getElem?_eq_some_iff.1 hk).1
      exact (callsOf_call_ne w (hlt.trans_le hj).ne' _).trans (h.silent j hj)
    · have hopened : Opened { w.call k (.onAccept connection.endpoint) with
          listening := .onAccept k } j = True := by
        simp [Opened]
      rw [hopened]
      have htold := h.told j c hj
      by_cases hjk : j = k
      · subst hjk
        cases hk.symm.trans hj
        have hnot : ¬ w.Opened j := fun hopened => hopened.2 hcall
        have hcalls := callsOf_call_self w j (.onAccept connection.endpoint)
        exact hcalls ▸ htold.open hnot hwaits
      · have hopened : w.Opened j = True := by simp [Opened, hcall, Ne.symm hjk]
        rw [hopened] at htold
        have hcalls := callsOf_call_ne w hjk (.onAccept connection.endpoint)
        exact hcalls ▸ htold
  · rename_i k honAccept
    refine { h with
      listening := nofun
      waiting := nofun
      told := fun j c hj => ?_
      listed := ⟨fun j c hj hjp _ => h.listed.find j c hj hjp (by simp [honAccept]),
        h.listed.apart, h.listed.shut⟩ }
    have hopened : w.Opened j = Opened { w with listening := .accept } j := by
      simp [Opened, honAccept]
    have htold := h.told j c hj
    rw [hopened] at htold
    exact htold

theorem Kept.reported_of_careful (h : Kept w place) {failed : Bool}
    (hi : w.workers i = .has c next) (hrecv : c.type = .recv)
    (hcareful : w.Careful (.work i failed)) : w.listening.connection ≠ some c.connection := by
  by_cases hnext : next = .dispatch
  · subst hnext
    simp only [Careful, hi] at hcareful
    exact hcareful hrecv
  · exact h.reported hi hrecv hnext

theorem Kept.work (h : Kept w place) {failed : Bool} (hcan : w.Can (.work i failed))
    (hcareful : w.Careful (.work i failed)) : ∃ place', Kept (w.work i failed) place' := by
  cases hi : w.workers i with
  | getQueued =>
    simp only [Can, hi, CanWork] at hcan
    obtain ⟨c, port, hport⟩ := List.exists_cons_of_ne_nil hcan
    simp only [CompletionPort.work, hi, hport]
    exact h.dequeue hi hport
  | has c next =>
    simp only [Can, hi, CanWork] at hcan
    simp only [CompletionPort.work, hi]
    cases htype : c.type with
    | send =>
      obtain ⟨hnext, hends, connection, hk, -⟩ := h.sends.workers i c next hi htype hcan
      rw [hk]
      rcases hnext with rfl | rfl
      · simp only [CompletionPort.handle, hends, htype, Bool.false_eq_true, if_false]
        exact ⟨place, h.sent hi htype fun c' next' hc' => by cases hc'; exact ⟨rfl, by simp⟩⟩
      · simp only [CompletionPort.handle]
        refine ⟨place, h.sent hi htype fun c' next' hc' => ?_⟩
        split_ifs at hc'
        cases hc'
        exact ⟨rfl, by simp⟩
    | recv =>
      obtain ⟨connection, hk⟩ := h.connection_of_has hi htype
      have hreported := h.reported_of_careful hi htype hcareful
      have hsend := h.workers.receives i c next hi htype
      simp only [Careful, hi] at hcareful
      rw [hk]
      obtain ⟨p, hp⟩ := h.handle hi htype hk hreported failed hcareful hsend hcan
      exact ⟨_, hp⟩

/-- A thread with a completion finds the memory of its connection. -/
theorem Kept.unfreed (h : Kept w place) (hi : w.workers i = .has c next)
    (hnext : next ≠ .returned) :
    ∃ connection, w.connections[c.connection]? = some connection ∧ connection.freed = false := by
  cases htype : c.type with
  | send => exact (h.sends.workers i c next hi htype hnext).2.2
  | recv =>
    obtain ⟨connection, hk⟩ := h.connection_of_has hi htype
    exact ⟨connection, hk, h.not_freed hi htype hk⟩

/-- A thread finds what it reads, and closes no other socket. -/
theorem Kept.safe (h : Kept w place) {ev : PortEvent n} (hcareful : w.Careful ev) : w.Safe ev := by
  cases ev with
  | work i failed =>
    cases hi : w.workers i with
    | getQueued => simp only [Safe, hi, SafeWork]
    | has c next =>
      by_cases hreturned : next = .returned
      · subst hreturned
        simp only [Safe, hi, SafeWork]
      have hsafe : ∃ connection ∈ w.connections[c.connection]?, connection.freed = false ∧
          (next = .dispatch ∧ c.ends = true ∨ next = .onDisconnect ∨ next = .erase →
            (w.socket.sockEndpointMap.find connection.socket).isSome = true) ∧
          (next = .closeHandle → ∀ k c', w.connections[k]? = some c' → k ≠ c.connection →
            c'.isOpen = true → c'.socket ≠ connection.socket) := by
        obtain ⟨connection, hk, hfreed⟩ := h.unfreed hi hreturned
        refine ⟨connection, hk, hfreed, fun hnext => ?_, fun hnext k c' hk' hne hopen => ?_⟩
        all_goals cases htype : c.type with
        | send =>
          obtain ⟨hpos, hends, -⟩ := h.sends.workers i c next hi htype hreturned
          rcases hpos with rfl | rfl <;> simp_all
        | recv => ?_
        · have hopened := opened_of_reported (h.reported_of_careful hi htype hcareful)
          have hlisted : RecvAt.erased (.has c next) = false := by
            rcases hnext with ⟨rfl, -⟩ | rfl | rfl <;> rfl
          rw [h.found hi htype hk hlisted hopened]
          rfl
        · refine h.listed.shut _ k connection c' hk hk' ?_ hne hopen
          rw [h.place_eq hi htype, hnext]
          rfl
      cases next <;>
        first | exact absurd rfl hreturned | simpa only [Safe, hi, SafeWork] using hsafe
  | _ => trivial

theorem Kept.step (h : Kept w place) {ev : PortEvent n} (hcan : w.Can ev)
    (hcareful : w.Careful ev) : ∃ place', Kept (w.step ev) place' := by
  cases ev with
  | accept sock ip port => exact ⟨_, h.accept hcan.1 hcan.2 hcareful ip port⟩
  | listen => exact ⟨_, h.listen hcan⟩
  | arrive k data => exact ⟨_, h.arrive k data⟩
  | complete k bytesTransferred getQueueError =>
    obtain ⟨hposted, -, herror, hle⟩ := hcan
    have hlt : k < w.connections.length := by
      by_contra hnot
      have hplace := (h.posted.mem_iff k).1 hposted
      rw [h.beyond k (not_lt.1 hnot)] at hplace
      cases hplace
    have hk := List.getElem?_eq_getElem hlt
    exact ⟨_, h.complete (c := ⟨k, .recv, bytesTransferred, getQueueError⟩) hk hposted rfl herror
      (hle _ hk)⟩
  | sendDone k bytesTransferred getQueueError =>
    refine ⟨place, { h with
      port := h.port.push_send rfl
      sends := ⟨fun c hc hsend => ?_, h.sends.workers⟩
      listed := ⟨h.listed.find, h.listed.apart, h.listed.shut⟩ }⟩
    rcases List.mem_append.1 hc with hc | hc
    · exact h.sends.port c hc hsend
    · obtain rfl := List.mem_singleton.1 hc
      exact hcareful
  | work i failed => exact h.work hcan hcareful
  | disconnect ip port => exact ⟨_, h.disconnect ip port⟩

end Steps

section InOrder

variable {w : CompletionPort n} {connection : IocpConnection}

theorem type_of_inHandler (h : Kept w place) {i : Fin n} {next : ServerWorkStep}
    (hi : w.workers i = .has c next) (hnext : next.inHandler = true) :
    c.type = .recv ∧ next ≠ .dispatch := by
  have hne : next ≠ .dispatch ∧ next ≠ .send ∧ next ≠ .returned := by
    cases next <;> simp_all [ServerWorkStep.inHandler]
  cases htype : c.type with
  | send =>
    rcases (h.sends.workers i c next hi htype hne.2.2).1 with hpos | hpos
    · exact absurd hpos hne.1
    · exact absurd hpos hne.2.1
  | recv => exact ⟨rfl, hne.1⟩

/-- Nothing is due where the connection has ended, or waits for bytes. -/
theorem Told.received_eq {opened : Prop} {calls : List ISocketHandlerCall}
    (h : Told connection p opened calls) (hdue : p.due = 0) :
    received calls = connection.arrived.take connection.taken := by
  have hbytes := h.bytes
  rwa [hdue, List.take_zero, List.append_nil] at hbytes

theorem due_of_ended (h : p.ended = true) : p.due = 0 := by
  cases p with
  | has c next => cases next <;> first | rfl | cases h
  | freed => rfl
  | _ => cases h

theorem onDisconnect_mem_iff {opened : Prop} {calls : List ISocketHandlerCall}
    (h : Told connection p opened calls) (hopened : opened) :
    .onDisconnect connection.endpoint ∈ calls ↔ p.ended = true := by
  obtain ⟨datas, hcalls⟩ := h.tells hopened
  rw [hcalls]
  split_ifs with hended <;> simp [hended]

theorem Kept.inOrder (h : Kept w place) : w.InOrder where
  unfreed i c next hi hnext := h.unfreed hi hnext
  alone i i' c c' next next' hi hi' hnext hnext' hcc :=
    h.workers.inj i i' c c' next next' hi hi' (type_of_inHandler h hi hnext).1
      (type_of_inHandler h hi' hnext').1 hcc
  accepted i c next hi hnext :=
    h.reported hi (type_of_inHandler h hi hnext).1 (type_of_inHandler h hi hnext).2
  tells k c hk := by
    have htold := h.told k c hk
    by_cases hopened : w.Opened k
    · obtain ⟨datas, hcalls⟩ := htold.tells hopened
      refine .inr ⟨datas, _, hcalls, ?_⟩
      split_ifs
      · exact .inr rfl
      · exact .inl rfl
    · exact .inl (htold.silent hopened)
  received_prefix k c hk :=
    (List.prefix_append _ _).trans ((h.told k c hk).bytes ▸ List.take_prefix _ _)
  caught_up k c hk hposted :=
    (h.told k c hk).received_eq (by rw [(h.posted.mem_iff k).1 hposted]; rfl)
  ended k c hk hend := by
    have htold := h.told k c hk
    by_cases hopened : w.Opened k
    · exact htold.received_eq (due_of_ended ((onDisconnect_mem_iff htold hopened).1 hend))
    · rw [htold.silent hopened] at hend
      cases hend
  served hport hidle k c hk := by
    have htold := h.told k c hk
    cases hplace : place k with
    | receiving => exact .inl ((h.posted.mem_iff k).2 hplace)
    | queued c' =>
      have hmem := (h.port.of_queued k c' hplace).1
      rw [hport] at hmem
      cases hmem
    | has c' next =>
      obtain ⟨hconnection, hrecv, i, hi⟩ := h.workers.of_has k c' next hplace
      rcases hidle i with hgot | ⟨c₁, hreturned⟩
      · cases hi.symm.trans hgot
      · cases hi.symm.trans hreturned
        exact .inr (.inr ⟨i, c', hi, hrecv, hconnection⟩)
    | freed =>
      have hreported : w.listening.connection ≠ some k := fun hlistening => by
        have hwaits := h.waiting k hlistening
        rw [hplace] at hwaits
        cases hwaits
      refine .inr (.inl ((onDisconnect_mem_iff htold (opened_of_reported hreported)).2 ?_))
      rw [hplace]
      rfl

/-- Three bytes arrive, two are received by one thread, and the last while the other has a send;
`Disconnect` closes the socket, and its value is accepted again before the memory is freed. -/
def reusedSocket (i j : Fin 2) : List (PortEvent 2) :=
  List.flatten [[.accept 7 [49] 5000, .arrive 0 [1, 2, 3], .complete 0 2 false],
    List.replicate 3 .listen, List.replicate 4 (.work i false),
    [.sendDone 0 5 false, .complete 0 1 false], List.replicate 2 (.work j false),
    List.replicate 4 (.work i false), [.work j false, .disconnect [49] 5000, .complete 0 0 true],
    List.replicate 5 (.work i false), [.accept 7 [50] 6000, .work i false]]

/-- A send is in the hands of one thread when the other frees the memory of its connection. -/
example : ¬ Along step Careful (start 80 : CompletionPort 2)
    (List.flatten [[.accept 7 [49] 5000, .complete 0 0 false], List.replicate 3 .listen,
      [.sendDone 0 5 false], List.replicate 5 (.work 0 false), List.replicate 2 (.work 1 false),
      [.work 0 false]]) := by
  decide +kernel

end InOrder

end CompletionPort

end Elegance
