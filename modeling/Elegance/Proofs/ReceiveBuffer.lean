import Elegance.ReceiveBuffer

/-!
# What the inner loops store

A turn stores to the indices up to and including the number of bytes read (`stores_step`), so a read
that fills `buff_` puts the zero one behind its end. What is handed on is what was read all the same
(`calls_step`), which is what `serve` says of the whole event (`serve_eq_receive`).
-/

namespace Elegance

open Machine

namespace Receiving

variable (endpoint : Option Endpoint) (r : Receiving) (data : SocketRead)

theorem stores_step :
    (r.step endpoint data).stores = r.stores ++ List.range (data.bytes.length + 1) := by
  simp [step, onRecv, store, List.range_succ, List.range_eq_range']

/-- The zero does not reach what was read. -/
theorem calls_step : (r.step endpoint data).calls =
    r.calls ++ endpoint.toList.map fun endpoint => .onRecv endpoint data.bytes := by
  have hread : Memory.load (Memory.store (Memory.store r.memory 0 data.bytes)
      data.bytes.length [0]) 0 data.bytes.length = data.bytes := by
    rw [Memory.load_store_of_le _ _ (zero_add _).le, Memory.load_store]
  simp only [step, onRecv, store, hread]

theorem stores_exec : ∀ (r : Receiving) (reads : List SocketRead),
    (exec (step endpoint) r reads).stores =
      r.stores ++ reads.flatMap fun data => List.range (data.bytes.length + 1)
  | r, [] => by simp
  | r, data :: reads => by
    rw [exec_cons, stores_exec _ reads, stores_step, List.flatMap_cons, List.append_assoc]

theorem calls_exec : ∀ (r : Receiving) (reads : List SocketRead),
    (exec (step endpoint) r reads).calls = r.calls ++
      endpoint.toList.flatMap fun endpoint => reads.map fun data => .onRecv endpoint data.bytes
  | r, [] => by simp
  | r, data :: reads => by
    rw [exec_cons, calls_exec _ reads, calls_step]
    cases endpoint <;> simp

end Receiving

namespace SocketLoop

variable {σ : Type*} (L : SocketLoop σ) (s : σ) (sock : ℤ) (memory : ℕ → Byte)
  (reads : List SocketRead)

theorem forwards_receive : (L.receive s sock memory reads).Forwards (L.endpointOf s sock) reads := by
  rw [receive, Receiving.Forwards, Receiving.calls_exec, List.nil_append]

theorem inBounds_receive_iff : (L.receive s sock memory reads).InBounds ↔
    ∀ data ∈ reads, data.bytes.length < maxSocketMsgBuffLength := by
  have hmem : ∀ index, index ∈ (L.receive s sock memory reads).stores ↔
      ∃ data ∈ reads, index ≤ data.bytes.length := by
    intro index
    simp [receive, Receiving.stores_exec]
  constructor
  · intro h data hdata
    exact h _ ((hmem _).2 ⟨data, hdata, le_rfl⟩)
  · intro h index hindex
    obtain ⟨data, hdata, hle⟩ := (hmem index).1 hindex
    exact hle.trans_lt (h data hdata)

/-- The loop of an event is the one `serve` summarises. -/
theorem serve_eq_receive (last : ReadEnd) (h : reads ≠ []) :
    (L.serve s sock (.readable ⟨reads.map SocketRead.toChunk, last⟩)).2 =
      (L.receive s sock memory reads).calls := by
  rw [forwards_receive, serve, if_neg (by simpa using h)]
  simp [SocketRead.toChunk, Function.comp_def]

/-- Both loops hand on what they read, and keep to `buff_` exactly when no read fills it. -/
theorem receive_sound_iff :
    ((L.receive s sock memory reads).Forwards (L.endpointOf s sock) reads ∧
      (L.receive s sock memory reads).InBounds) ↔
    ∀ data ∈ reads, data.bytes.length < maxSocketMsgBuffLength := by
  rw [inBounds_receive_iff]
  exact and_iff_right (L.forwards_receive s sock memory reads)

def fullRead : SocketRead where
  bytes := List.replicate maxSocketMsgBuffLength 65
  ne_nil := by
    rw [ne_eq, List.replicate_eq_nil_iff]
    decide
  length_le := by simp

/-- A read that fills `buff_` has its zero put behind the array, by either loop. -/
theorem not_receive_sound_fullRead :
    ¬ (SocketAccept.loop.receive (({} : SocketAccept).accepted 5 [49] 4000) 5 (fun _ => 0)
        [fullRead]).InBounds ∧
      ¬ (SocketConnect.loop.receive {} 5 (fun _ => 0) [fullRead]).InBounds := by
  constructor <;>
  · rw [inBounds_receive_iff]
    simp [fullRead]

end SocketLoop

end Elegance
