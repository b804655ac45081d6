import Elegance.Proofs.Chunking

/-!
# The recursion of `UnPack`

The calls one call of `UnPack` nests, with the bytes each was called on. On a stream whose headers
are good there are at most one more than the chunk has bytes, and their copies are the chunk cut in
pieces (`unPack_nestedCalls`).
-/

namespace Elegance

open CInt

variable {H : HostLayout} {netId : NetworkID} {m m' : NetIdToBufferMap} {d : List Byte}

section Activation

/-- Either branch goes on with what it has not copied of the bytes it was called on. -/
theorem activation_rest (entry : Option CacheBuffer) (d : List Byte) :
    (activation H entry d).copy.srcLen = d.length ∧
      (activation H entry d).rest = d.drop (activation H entry d).copy.size.toNat ∧
      (activation H entry d).remainBytes = d.length - (activation H entry d).copy.size := by
  unfold activation
  split
  · split_ifs <;> exact ⟨rfl, rfl, rfl⟩
  · exact ⟨rfl, rfl, rfl⟩

/-- A run that returns made a good copy, and either copied all there was or goes on with the rest. -/
theorem unPackFuel_ok {fuel : ℕ} (h : (unPackFuel H netId (fuel + 1) m d).final = .ok m') :
    (activation H (m.find netId) d).copy.InBounds ∧
      ((activation H (m.find netId) d).remainBytes = 0 ∨
        0 < (activation H (m.find netId) d).remainBytes ∧
          (unPackFuel H netId fuel (m.set netId (activation H (m.find netId) d).cache)
            (activation H (m.find netId) d).rest).final = .ok m') := by
  simp only [unPackFuel] at h
  split_ifs at h with hc hr
  · exact ⟨hc, .inr ⟨hr, h⟩⟩
  · refine ⟨hc, .inl ?_⟩
    obtain ⟨hsrc, -, hremain⟩ := activation_rest (H := H) (m.find netId) d
    have hle := hc.2.1
    omega

end Activation

section Calls

variable (H netId) in
/-- The calls made by a call of `UnPack`, itself the first: the bytes each was called on, and what
it did before the next. -/
def nestedCalls : ℕ → NetIdToBufferMap → List Byte → List (List Byte × Activation)
  | 0, _, _ => []
  | fuel + 1, m, data =>
    let a := activation H (m.find netId) data
    (data, a) :: if a.copy.InBounds ∧ 0 < a.remainBytes then
      nestedCalls fuel (m.set netId a.cache) a.rest
    else []

/-- The calls copy the bytes of `data`, each once and in order. -/
structure Consumes (calls : List (List Byte × Activation)) (data : List Byte) : Prop where
  nonneg : ∀ c ∈ calls, 0 ≤ c.2.copy.size
  total : (calls.map fun c => c.2.copy.size).sum = data.length
  pieces : (calls.flatMap fun c => c.1.take c.2.copy.size.toNat) = data

theorem consumes_nil : Consumes [] [] := ⟨by simp, rfl, rfl⟩

theorem Consumes.cons {calls : List (List Byte × Activation)} {a : Activation}
    (h : Consumes calls (d.drop a.copy.size.toNat)) (h0 : 0 ≤ a.copy.size)
    (hle : a.copy.size ≤ d.length) : Consumes ((d, a) :: calls) d where
  nonneg c hc := by
    rcases List.mem_cons.1 hc with rfl | hc
    · exact h0
    · exact h.nonneg c hc
  total := by
    rw [List.map_cons, List.sum_cons, h.total, List.length_drop]
    dsimp only
    omega
  pieces := by
    rw [List.flatMap_cons, h.pieces, List.take_append_drop]

theorem nestedCalls_last (fuel : ℕ) (hr : (activation H (m.find netId) d).remainBytes = 0) :
    nestedCalls H netId (fuel + 1) m d = [(d, activation H (m.find netId) d)] := by
  simp only [nestedCalls, hr, lt_irrefl, and_false, if_false]

theorem nestedCalls_more (fuel : ℕ) (hc : (activation H (m.find netId) d).copy.InBounds)
    (hr : 0 < (activation H (m.find netId) d).remainBytes) :
    nestedCalls H netId (fuel + 1) m d = (d, activation H (m.find netId) d) ::
      nestedCalls H netId fuel (m.set netId (activation H (m.find netId) d).cache)
        (activation H (m.find netId) d).rest := by
  simp only [nestedCalls, if_pos (And.intro hc hr)]

theorem nestedCalls_consumes : ∀ {fuel : ℕ} {m : NetIdToBufferMap} {d : List Byte},
    (unPackFuel H netId fuel m d).final = .ok m' → Consumes (nestedCalls H netId fuel m d) d
  | 0, m, d, h => by simp [unPackFuel] at h
  | fuel + 1, m, d, h => by
    obtain ⟨hsrc, hrest, hremain⟩ := activation_rest (H := H) (m.find netId) d
    obtain ⟨hc, hlast | ⟨hr, hmore⟩⟩ := unPackFuel_ok h
    · have hsize : (activation H (m.find netId) d).copy.size = d.length := by omega
      rw [nestedCalls_last fuel hlast]
      refine Consumes.cons ?_ hc.1 hsize.le
      rw [hsize, Int.toNat_natCast, List.drop_length]
      exact consumes_nil
    · have ih := nestedCalls_consumes hmore
      rw [nestedCalls_more fuel hc hr]
      rw [hrest] at ih ⊢
      exact ih.cons hc.1 (hsrc ▸ hc.2.1)

/-- What a run does is what its calls do. -/
theorem events_nestedCalls : ∀ {fuel : ℕ} {m : NetIdToBufferMap} {d : List Byte},
    (unPackFuel H netId fuel m d).final = .ok m' →
      (unPackFuel H netId fuel m d).events =
        (nestedCalls H netId fuel m d).flatMap fun c => c.2.events netId
  | 0, m, d, h => by simp [unPackFuel] at h
  | fuel + 1, m, d, h => by
    obtain ⟨hc, hlast | ⟨hr, hmore⟩⟩ := unPackFuel_ok h
    · rw [unPackFuel_last hc hlast, nestedCalls_last fuel hlast, List.flatMap_singleton]
    · rw [unPackFuel_more hc hr, nestedCalls_more fuel hc hr, List.flatMap_cons,
        events_nestedCalls hmore]

theorem length_nestedCalls_le : ∀ (fuel : ℕ) (m : NetIdToBufferMap) (d : List Byte),
    (nestedCalls H netId fuel m d).length ≤ fuel
  | 0, m, d => le_rfl
  | fuel + 1, m, d => by
    simp only [nestedCalls]
    split_ifs
    · exact Nat.succ_le_succ (length_nestedCalls_le fuel _ _)
    · simp

/-- More fuel than a run needs makes no more calls. -/
theorem nestedCalls_add (k : ℕ) : ∀ {fuel : ℕ} {m : NetIdToBufferMap} {d : List Byte},
    (unPackFuel H netId fuel m d).final = .ok m' →
      nestedCalls H netId (fuel + k) m d = nestedCalls H netId fuel m d
  | 0, m, d, h => by simp [unPackFuel] at h
  | fuel + 1, m, d, h => by
    rw [Nat.add_right_comm]
    obtain ⟨hc, hlast | ⟨hr, hmore⟩⟩ := unPackFuel_ok h
    · rw [nestedCalls_last _ hlast, nestedCalls_last _ hlast]
    · rw [nestedCalls_more _ hc hr, nestedCalls_more _ hc hr, nestedCalls_add k hmore]

/-- From any reachable map, as long as the header in the buffer and those completed on the way
announce lengths in `0..INT_MAX-4`, a call of `UnPack` on `n` bytes returns after at most `n + 1`
nested calls, itself the first, whose copies use up the chunk. -/
theorem unPack_nestedCalls (H : HostLayout) (hm : Reachable H m) (netId : NetworkID) (hd : d ≠ [])
    (ha : Announced H (held m netId ++ d)) {fuel : ℕ} (hfuel : d.length + 1 ≤ fuel) :
    (∃ m', (unPackFuel H netId fuel m d).final = .ok m') ∧
      (unPackFuel H netId fuel m d).events =
        ((nestedCalls H netId fuel m d).flatMap fun c => c.2.events netId) ∧
      (nestedCalls H netId fuel m d).length ≤ d.length + 1 ∧
      Consumes (nestedCalls H netId fuel m d) d := by
  obtain ⟨s, hs, -⟩ := hm.cached netId
  rw [Holds.held_eq hs] at ha
  have hreturns : ∀ fuel, d.length + 1 ≤ fuel →
      ∃ m', (unPackFuel H netId fuel m d).final = .ok m' := fun fuel hfuel => by
    obtain ⟨m', hm'⟩ := decodes_all fuel hs hd (tame_of_announced H ha)
      ((calls_le _ d).trans hfuel)
    exact ⟨m', hm'.final⟩
  obtain ⟨m', hfinal⟩ := hreturns fuel hfuel
  obtain ⟨m₁, hfirst⟩ := hreturns (d.length + 1) le_rfl
  refine ⟨⟨m', hfinal⟩, events_nestedCalls hfinal, ?_, nestedCalls_consumes hfinal⟩
  obtain ⟨k, rfl⟩ := Nat.exists_eq_add_of_le hfuel
  rw [nestedCalls_add k hfirst]
  exact length_nestedCalls_le _ m d

/-- An empty package, whose body is a call that copies nothing, and a byte of the next. -/
theorem unPack_nestedCalls_empty :
    (∃ m', (unPackFuel littleEndian 1 6 .empty [0, 0, 0, 0, 7]).final = .ok m') ∧
      (unPackFuel littleEndian 1 6 .empty [0, 0, 0, 0, 7]).events =
        ((nestedCalls littleEndian 1 6 .empty [0, 0, 0, 0, 7]).flatMap fun c => c.2.events 1) ∧
      (nestedCalls littleEndian 1 6 .empty [0, 0, 0, 0, 7]).length ≤ 6 ∧
      Consumes (nestedCalls littleEndian 1 6 .empty [0, 0, 0, 0, 7]) [0, 0, 0, 0, 7] :=
  unPack_nestedCalls littleEndian ⟨[], rfl⟩ 1 (by simp) (by decide +kernel) le_rfl

end Calls

end Elegance
