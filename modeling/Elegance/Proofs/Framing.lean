import Elegance.Proofs.UnPack

/-!
# Runs of `UnPack`

Over any interleaving of calls, the entry of each net id depends on the bytes fed to that id alone,
however they were cut (`unPackAll_of_tame`). So what `PackAndSend` wrote for each id comes out as it
went in, and the copies stay in their blocks exactly as long as every id's stream is `Tame`.
-/

namespace Elegance

open CInt LengthPrefix

variable {H : HostLayout}

section Run

variable (H) in
/-- The entry of `netId` after the bytes `s` were fed to it, and none before. -/
def Cached (m : NetIdToBufferMap) (netId : NetworkID) (s : List Byte) : Prop :=
  Holds H m netId (handedOver H s).2 (4 + longestPackage H s)

variable (H) in
/-- The `ManagerRecv` calls `s` leads to. -/
def packages (s : List Byte) : List (List Byte × ℤ) :=
  (handedOver H s).1.map fun b => (b, (b.length : ℤ))

theorem packages_append (s t : List Byte) :
    packages H (s ++ t) = packages H s ++ packages H ((handedOver H s).2 ++ t) := by
  simp only [packages, handedOver_append s t, List.map_append]

theorem cached_nil {m : NetIdToBufferMap} {netId : NetworkID} (h : m.find netId = none) :
    Cached H m netId [] := by
  have hnone := next_of_length_le (H := H) (s := []) (by simp)
  refine .inl ⟨h, by rw [handedOver_of_none hnone], ?_⟩
  rw [longestPackage_of_none hnone, if_neg (by simp)]

theorem tame_nil : Tame H 4 [] := tame_of_length_le H le_rfl (by simp)

theorem tame_held {s : List Byte} (hs : Tame H 4 s) :
    Tame H (4 + longestPackage H s) (handedOver H s).2 := by
  have := (tame_continue (H := H) s []).2 (by rwa [List.append_nil])
  rwa [List.append_nil] at this

variable {m : NetIdToBufferMap} {netId : NetworkID}

theorem unPack_cached {s d : List Byte} (h : Cached H m netId s) (hd : d ≠ [])
    (ht : Tame H 4 (s ++ d)) :
    ∃ m', (unPack H m netId d).final = .ok m' ∧ Cached H m' netId (s ++ d) ∧
      (∀ j, j ≠ netId → m'.find j = m.find j) ∧
      (∀ j, managerRecvs j (unPack H m netId d).events =
        if j = netId then packages H ((handedOver H s).2 ++ d) else []) ∧
      ∀ e ∈ (unPack H m netId d).events, e.Safe := by
  obtain ⟨m', hm'⟩ := unPack_of_tame h hd ((tame_continue s d).2 ht)
  refine ⟨m', hm'.final, ?_, hm'.others, hm'.recvs, hm'.safe⟩
  have hcap : max (4 + longestPackage H s) (4 + longestPackage H ((handedOver H s).2 ++ d))
      = 4 + longestPackage H (s ++ d) := by
    rw [longestPackage_append s d]
    omega
  have hholds := hm'.holds
  rw [hcap] at hholds
  rw [Cached, handedOver_append s d]
  exact hholds

theorem fed_cons (j : NetworkID) (c : NetworkID × Chunk) (cs : List (NetworkID × Chunk)) :
    fed j (c :: cs) = (if c.1 = j then c.2.bytes else []) ++ fed j cs :=
  rfl

theorem unPackAll_cons {c : NetworkID × Chunk} {cs : List (NetworkID × Chunk)}
    {m' : NetIdToBufferMap} (h : (unPack H m c.1 c.2.bytes).final = .ok m') :
    unPackAll H m (c :: cs) = ⟨(unPack H m c.1 c.2.bytes).events ++ (unPackAll H m' cs).events,
      (unPackAll H m' cs).final⟩ := by
  simp only [unPackAll, h]

/-- The history of every id in `K` after one more call. -/
theorem cached_update {K : Set NetworkID} {s : NetworkID → List Byte} {c : NetworkID × Chunk}
    {m' : NetIdToBufferMap} (h : ∀ j ∈ K, Cached H m j (s j))
    (hc : Cached H m' c.1 (s c.1 ++ c.2.bytes)) (ho : ∀ j, j ≠ c.1 → m'.find j = m.find j) :
    ∀ j ∈ K, Cached H m' j (s j ++ if c.1 = j then c.2.bytes else []) := by
  intro j hj
  by_cases hcj : c.1 = j
  · subst hcj
    rwa [if_pos rfl]
  · rw [if_neg hcj, List.append_nil]
    have := h j hj
    rw [Cached, Holds] at this ⊢
    rwa [ho j (Ne.symm hcj)]

theorem unPackAll_of_tame {K : Set NetworkID} :
    ∀ (calls : List (NetworkID × Chunk)) {m : NetIdToBufferMap} {s : NetworkID → List Byte},
      (∀ j ∈ K, Cached H m j (s j)) → (∀ c ∈ calls, c.1 ∈ K) →
      (∀ j ∈ K, Tame H 4 (s j ++ fed j calls)) →
        ∃ m', (unPackAll H m calls).final = .ok m' ∧
          (∀ j ∈ K, Cached H m' j (s j ++ fed j calls)) ∧
          (∀ j ∈ K, packages H (s j ++ fed j calls) =
            packages H (s j) ++ managerRecvs j (unPackAll H m calls).events) ∧
          ∀ e ∈ (unPackAll H m calls).events, e.Safe
  | [], m, s, h, _, _ => by
    refine ⟨m, rfl, fun j hj => ?_, fun j _ => ?_, fun e he => ?_⟩
    · simpa [fed] using h j hj
    · simp [fed, unPackAll, managerRecvs]
    · simp [unPackAll] at he
  | c :: cs, m, s, h, hk, ht => by
    have hcK := hk c List.mem_cons_self
    have hfed := fun j => fed_cons j c cs
    have htc : Tame H 4 (s c.1 ++ c.2.bytes) := by
      have := ht c.1 hcK
      rw [hfed, if_pos rfl, ← List.append_assoc] at this
      exact tame_prefix this
    obtain ⟨m', hfin, hcached, hothers, hrecvs, hsafe⟩ := unPack_cached (h c.1 hcK) c.2.ne_nil htc
    have hassoc : ∀ j, s j ++ fed j (c :: cs)
        = (s j ++ if c.1 = j then c.2.bytes else []) ++ fed j cs := fun j => by
      rw [hfed, List.append_assoc]
    obtain ⟨m'', hfin', hcached', hpack', hsafe'⟩ := unPackAll_of_tame cs
      (cached_update h hcached hothers) (fun x hx => hk x (List.mem_cons_of_mem _ hx))
      (fun j hj => by rw [← hassoc]; exact ht j hj)
    rw [unPackAll_cons hfin]
    refine ⟨m'', hfin', fun j hj => by rw [hassoc]; exact hcached' j hj, fun j hj => ?_,
      fun e he => ?_⟩
    · rw [hassoc, hpack' j hj, managerRecvs_append, hrecvs j, ← List.append_assoc]
      congr 1
      by_cases hcj : c.1 = j
      · subst hcj
        rw [if_pos rfl, if_pos rfl, packages_append]
      · rw [if_neg hcj, if_neg (Ne.symm hcj), List.append_nil, List.append_nil]
    · rcases List.mem_append.1 he with he | he
      · exact hsafe e he
      · exact hsafe' e he

theorem unPackAll_of_not_tame {K : Set NetworkID} :
    ∀ (calls : List (NetworkID × Chunk)) {m : NetIdToBufferMap} {s : NetworkID → List Byte},
      (∀ j ∈ K, Cached H m j (s j)) → (∀ j ∈ K, Tame H 4 (s j)) → (∀ c ∈ calls, c.1 ∈ K) →
      (∃ j ∈ K, ¬ Tame H 4 (s j ++ fed j calls)) → (unPackAll H m calls).Stops
  | [], m, s, _, ht, _, hn => by
    obtain ⟨j, hj, hn⟩ := hn
    exact absurd (ht j hj) (by simpa [fed] using hn)
  | c :: cs, m, s, h, ht, hk, hn => by
    have hcK := hk c List.mem_cons_self
    by_cases htc : Tame H 4 (s c.1 ++ c.2.bytes)
    · obtain ⟨m', hfin, hcached, hothers, -, -⟩ := unPack_cached (h c.1 hcK) c.2.ne_nil htc
      obtain ⟨j, hj, hn⟩ := hn
      rw [fed_cons, ← List.append_assoc] at hn
      obtain ⟨hfinal, e, he, hs⟩ := unPackAll_of_not_tame cs (cached_update h hcached hothers)
        (fun i hi => by
          by_cases hci : c.1 = i
          · subst hci
            rwa [if_pos rfl]
          · rw [if_neg hci, List.append_nil]
            exact ht i hi)
        (fun x hx => hk x (List.mem_cons_of_mem _ hx)) ⟨j, hj, hn⟩
      rw [unPackAll_cons hfin]
      exact ⟨hfinal, e, List.mem_append_right _ he, hs⟩
    · obtain ⟨hfinal, e, he, hs⟩ := unPack_of_not_tame (h c.1 hcK) c.2.ne_nil
        (tame_held (ht c.1 hcK)) (fun h' => htc ((tame_continue _ _).1 h'))
      simp only [unPackAll, hfinal]
      exact ⟨rfl, e, he, hs⟩

variable {calls : List (NetworkID × Chunk)}

theorem unPackAll_empty_of_tame (ht : ∀ j, Tame H 4 (fed j calls)) :
    ∃ m', (unPackAll H .empty calls).final = .ok m' ∧ (∀ j, Cached H m' j (fed j calls)) ∧
      ∀ e ∈ (unPackAll H .empty calls).events, e.Safe := by
  obtain ⟨m', hfinal, hcached, -, hsafe⟩ := unPackAll_of_tame (K := Set.univ) calls
    (s := fun _ => []) (fun _ _ => cached_nil (StdMap.find_empty _))
    (fun _ _ => Set.mem_univ _) (fun j _ => ht j)
  exact ⟨m', hfinal, fun j => hcached j (Set.mem_univ _), hsafe⟩

theorem unPackAll_empty_of_not_tame {j : NetworkID} (hn : ¬ Tame H 4 (fed j calls)) :
    (unPackAll H .empty calls).Stops :=
  unPackAll_of_not_tame (K := Set.univ) calls (s := fun _ => [])
    (fun _ _ => cached_nil (StdMap.find_empty _)) (fun _ _ => tame_nil)
    (fun _ _ => Set.mem_univ _) ⟨j, Set.mem_univ _, hn⟩

end Run

section RoundTrip

variable (H) in
/-- A package as `PackAndSend` puts it on the wire. -/
def frame (msg : List Byte) : List Byte := H.writeInt msg.length ++ msg

theorem packAndSend_eq {msg : List Byte} (hl : (msg.length : ℤ) ≤ intMax - 4) :
    packAndSend H msg = some (frame H msg, ((frame H msg).length : ℤ)) := by
  have hsize : wrap32 ((netPackerFixheadHeaderLength : ℤ) + msg.length)
      = ((4 + msg.length : ℕ) : ℤ) := by
    rw [netPackerFixheadHeaderLength, wrap32_of_range]
    · rfl
    · rw [intMin]
      push_cast
      omega
    · rw [intMax] at *
      push_cast
      omega
  have hbuf : ({} : FlexibleBuffer).changeBufferSize ((4 + msg.length : ℕ) : ℤ)
      = ⟨.bytes (List.replicate (4 + msg.length) 0), ((4 + msg.length : ℕ) : ℤ)⟩ := by
    simp only [FlexibleBuffer.changeBufferSize]
    rw [if_neg (by omega), if_pos (by omega), if_neg (by omega)]
    simp only [Block.write, Block.content, Int.toNat_natCast, List.take_nil, List.take_zero,
      List.nil_append, List.length_nil, Nat.zero_add, List.drop_zero]
  unfold packAndSend
  dsimp only
  rw [hsize, hbuf]
  have hcopies : ∀ c ∈ [(⟨4, 4, 0, ((4 + msg.length : ℕ) : ℤ)⟩ : MemCopy),
      ⟨msg.length, msg.length, 4, ((4 + msg.length : ℕ) : ℤ)⟩], c.InBounds := by
    intro c hc
    simp only [List.mem_cons, List.not_mem_nil, or_false] at hc
    rcases hc with rfl | rfl <;> unfold MemCopy.InBounds <;> dsimp only <;> omega
  rw [netPackerFixheadHeaderLength, Nat.cast_ofNat, if_pos hcopies]
  simp only [Block.write, Block.content, frame, List.take_zero, List.nil_append,
    H.length_writeInt, Nat.zero_add, List.length_append]
  rw [List.take_left' (H.length_writeInt _),
    @List.drop_eq_nil_of_le _ (H.writeInt _ ++ _) _ (by simp), List.append_nil]

theorem bufferSize_changeBufferSize (b : FlexibleBuffer) (size : ℤ) :
    (b.changeBufferSize size).bufferSize = size := by
  simp only [FlexibleBuffer.changeBufferSize]
  split_ifs with hsame
  · exact hsame
  all_goals rfl

/-- A longer message would need a buffer whose size is no `int`. -/
theorem length_of_packAndSend {msg : List Byte} {p : List Byte × ℤ}
    (h : packAndSend H msg = some p) : (msg.length : ℤ) ≤ intMax - 4 := by
  unfold packAndSend at h
  dsimp only at h
  rw [bufferSize_changeBufferSize, netPackerFixheadHeaderLength] at h
  split_ifs at h with hcopies
  have hbody := hcopies ⟨msg.length, msg.length, 4, wrap32 (4 + msg.length)⟩ (by simp)
  have hsize := (wrap32_bounds (4 + msg.length)).2
  unfold MemCopy.InBounds at hbody
  dsimp only at hbody
  omega

/-- A package of any length is found once a byte follows its header. -/
theorem next_frame {msg rest : List Byte} (hl : (msg.length : ℤ) ≤ intMax - 4)
    (hne : msg ++ rest ≠ []) : (fixHead H).next 5 (frame H msg ++ rest) = some (msg, rest) := by
  have h4 := H.length_writeInt msg.length
  have hlen : (fixHead H).len (H.writeInt msg.length) = some msg.length := by
    refine fixHead_len_of_range H (H.readInt_writeInt _ ?_ (hl.trans (by decide))) hl
    rw [intMin]
    omega
  have hpos := List.length_pos_iff.2 hne
  rw [List.length_append] at hpos
  have htake : (frame H msg ++ rest).take 4 = H.writeInt msg.length := by
    rw [frame, List.append_assoc, List.take_left' h4]
  unfold Format.next
  rw [show (fixHead H).head = 4 from rfl, htake, hlen, if_neg (by
    simp only [frame, List.length_append, h4]
    omega)]
  dsimp only
  rw [if_neg (by simp only [frame, List.length_append, h4]; omega), ← List.drop_drop, frame,
    List.append_assoc, List.drop_left' h4, List.take_left' rfl, List.drop_left' rfl]

/-- The packages that matter to a receiver, as `ManagerRecv` gets them. -/
def nonEmpty (msgs : List (List Byte)) : List (List Byte × ℤ) :=
  (msgs.filter (· ≠ [])).map fun b => (b, (b.length : ℤ))

/-- The `ManagerRecv` calls of positive length. -/
def positive (recvs : List (List Byte × ℤ)) : List (List Byte × ℤ) :=
  recvs.filter fun p => 0 < p.2

theorem positive_packages (s : List Byte) :
    positive (packages H s) = nonEmpty (handedOver H s).1 := by
  simp only [positive, packages, nonEmpty, List.filter_map]
  congr 1
  refine List.filter_congr fun b _ => ?_
  simp [List.length_pos_iff]

theorem nonEmpty_frames : ∀ {msgs : List (List Byte)},
    (∀ msg ∈ msgs, (msg.length : ℤ) ≤ intMax - 4) →
      nonEmpty (handedOver H (msgs.map (frame H)).flatten).1 = nonEmpty msgs ∧
        Announced H (msgs.map (frame H)).flatten
  | [], _ => by
    have hnone := next_of_length_le (H := H) (s := []) (by simp)
    simp only [List.map_nil, List.flatten_nil, Announced, handedOver_of_none hnone]
    exact ⟨trivial, fun h => by simp [netPackerFixheadHeaderLength] at h⟩
  | msg :: msgs, h => by
    have hl := h msg List.mem_cons_self
    simp only [List.map_cons, List.flatten_cons]
    by_cases hne : msg ++ (msgs.map (frame H)).flatten = []
    · obtain ⟨rfl, hrest⟩ := List.append_eq_nil_iff.1 hne
      have hmsgs : msgs = [] := by
        rcases msgs with _ | ⟨x, xs⟩
        · rfl
        · have := congrArg List.length hrest
          simp [frame] at this
      subst hmsgs
      have h4 := H.length_writeInt 0
      have hnone : (fixHead H).next 5 (frame H []) = none :=
        next_of_length_le (by simp [frame])
      simp only [List.map_nil, List.flatten_nil, List.append_nil, Announced,
        handedOver_of_none hnone]
      refine ⟨rfl, fun _ => ?_⟩
      rw [netPackerFixheadHeaderLength, frame, List.take_left' (by simp), List.length_nil,
        fixHead_len_of_range H (n := 0) (H.readInt_writeInt _ (by decide) (by decide)) (by decide)]
      rfl
    · have hnext := next_frame (H := H) hl hne
      obtain ⟨hn, ha⟩ := nonEmpty_frames fun x hx => h x (List.mem_cons_of_mem _ hx)
      simp only [Announced, handedOver_of_some hnext]
      refine ⟨?_, ha⟩
      by_cases hm : msg = []
      · subst hm
        simpa [nonEmpty] using hn
      · simp only [nonEmpty, List.filter_cons, hm, ne_eq, not_false_eq_true, decide_true, if_true,
          List.map_cons] at hn ⊢
        rw [hn]

/-- Where no package is empty, all are handed over. -/
theorem handedOver_frames : ∀ {msgs : List (List Byte)},
    (∀ msg ∈ msgs, msg ≠ [] ∧ (msg.length : ℤ) ≤ intMax - 4) →
      (handedOver H (msgs.map (frame H)).flatten).1 = msgs
  | [], _ => by
    rw [List.map_nil, List.flatten_nil, handedOver_of_none (next_of_length_le (by simp))]
  | msg :: msgs, h => by
    obtain ⟨hne, hl⟩ := h msg List.mem_cons_self
    have hnext : (fixHead H).next 5 (frame H msg ++ (msgs.map (frame H)).flatten) = _ :=
      next_frame hl (List.append_ne_nil_of_left_ne_nil hne _)
    rw [List.map_cons, List.flatten_cons, handedOver_of_some hnext,
      handedOver_frames fun x hx => h x (List.mem_cons_of_mem _ hx)]

theorem nonEmpty_prefix {l l' : List (List Byte)} (h : l <+: l') : nonEmpty l <+: nonEmpty l' :=
  (h.filter _).map _

/-- The packages whose frames lie in a prefix of the stream are handed over with it. -/
theorem nonEmpty_take {msgs : List (List Byte)} (hl : ∀ msg ∈ msgs, (msg.length : ℤ) ≤ intMax - 4)
    {s t : List Byte} (hs : (msgs.map (frame H)).flatten = s ++ t) {k : ℕ}
    (hk : ((msgs.map (frame H)).take k).flatten.length ≤ s.length) :
    nonEmpty (msgs.take k) <+: nonEmpty (handedOver H s).1 := by
  have hsplit : ((msgs.map (frame H)).take k).flatten ++ ((msgs.map (frame H)).drop k).flatten
      = s ++ t := by
    rw [← List.flatten_append, List.take_append_drop, hs]
  obtain ⟨u, hu⟩ : ((msgs.map (frame H)).take k).flatten <+: s :=
    List.prefix_of_prefix_length_le ⟨_, hsplit⟩ (List.prefix_append s t) hk
  have hframes := (@nonEmpty_frames H (msgs.take k)
    fun m hm => hl m (List.mem_of_mem_take hm)).1
  rw [List.map_take] at hframes
  rw [← hframes, ← hu]
  exact nonEmpty_prefix ((fixHead H).decode_fst_mono _ _ _)

theorem fed_append (j : NetworkID) (l l' : List (NetworkID × Chunk)) :
    fed j (l ++ l') = fed j l ++ fed j l' :=
  List.flatMap_append

/-- What `PackAndSend` wrote for each net id, cut and interleaved in any way, reaches `ManagerRecv`
as it was sent, each package with its last byte. -/
theorem unPack_packAndSend_roundTrip (H : HostLayout) (m : NetIdToBufferMap)
    (ids : Finset NetworkID) (msgs : NetworkID → List (List Byte))
    (hnew : ∀ id ∈ ids, m.find id = none)
    (hlen : ∀ id ∈ ids, ∀ msg ∈ msgs id, (msg.length : ℤ) ≤ intMax - 4) :
    ∃ frames : NetworkID → List (List Byte),
      (∀ id ∈ ids, (msgs id).map (packAndSend H)
        = (frames id).map fun f => some (f, (f.length : ℤ))) ∧
      ∀ calls : List (NetworkID × Chunk), (∀ c ∈ calls, c.1 ∈ ids) →
        (∀ id ∈ ids, fed id calls = (frames id).flatten) →
          (∃ m', (unPackAll H m calls).final = .ok m') ∧
          ∀ id ∈ ids,
            positive (managerRecvs id (unPackAll H m calls).events) = nonEmpty (msgs id) ∧
            ∀ pre post, calls = pre ++ post → ∀ k,
              ((frames id).take k).flatten.length ≤ (fed id pre).length →
                nonEmpty ((msgs id).take k)
                  <+: positive (managerRecvs id (unPackAll H m pre).events) := by
  refine ⟨fun id => (msgs id).map (frame H), fun id hid => ?_, fun calls hids hfed => ?_⟩
  · rw [List.map_map]
    exact List.map_congr_left fun msg hmsg => packAndSend_eq (hlen id hid msg hmsg)
  have hstart : ∀ j ∈ (ids : Set NetworkID), Cached H m j [] := fun j hj => cached_nil (hnew j hj)
  have htame : ∀ j ∈ (ids : Set NetworkID), Tame H 4 (fed j calls) := fun j hj => by
    rw [hfed j hj]
    exact tame_of_announced H (nonEmpty_frames (hlen j hj)).2
  have hrun : ∀ pre post, calls = pre ++ post → ∃ m', (unPackAll H m pre).final = .ok m' ∧
      ∀ j ∈ ids, positive (managerRecvs j (unPackAll H m pre).events)
        = nonEmpty (handedOver H (fed j pre)).1 := by
    intro pre post hcalls
    obtain ⟨m', hfin, -, hpack, -⟩ := unPackAll_of_tame pre (s := fun _ => []) hstart
      (fun c hc => hids c (by rw [hcalls]; exact List.mem_append_left _ hc)) (fun j hj => by
        have := htame j hj
        rw [hcalls, fed_append] at this
        exact tame_prefix this)
    refine ⟨m', hfin, fun j hj => ?_⟩
    have hj' := hpack j hj
    have hnil : packages H [] = [] := by
      rw [packages, handedOver_of_none (next_of_length_le (H := H) (s := []) (by simp))]
      rfl
    rw [List.nil_append, hnil, List.nil_append] at hj'
    rw [← hj', positive_packages]
  obtain ⟨m', hfin, hall⟩ := hrun calls [] (List.append_nil _).symm
  refine ⟨⟨m', hfin⟩, fun id hid => ⟨?_, fun pre post hcalls k hk => ?_⟩⟩
  · rw [hall id hid, hfed id hid]
    exact (nonEmpty_frames (hlen id hid)).1
  · obtain ⟨-, -, hpre⟩ := hrun pre post hcalls
    rw [hpre id hid]
    refine nonEmpty_take (hlen id hid) (t := fed id post) ?_ hk
    rw [← hfed id hid, hcalls, fed_append]

/-- Two ids, one of them with an empty package behind the first. -/
theorem unPack_packAndSend_roundTrip_two :
    let calls : List (NetworkID × Chunk) :=
      [(1, ⟨[1, 0], by decide, by decide⟩), (2, ⟨[2, 0, 0, 0, 8], by decide, by decide⟩),
        (1, ⟨[0, 0, 7, 0, 0, 0, 0], by decide, by decide⟩), (2, ⟨[9], by decide, by decide⟩)]
    positive (managerRecvs 1 (unPackAll littleEndian .empty calls).events) = [([7], 1)] ∧
      positive (managerRecvs 2 (unPackAll littleEndian .empty calls).events) = [([8, 9], 2)] := by
  intro calls
  obtain ⟨frames, hframes, hrun⟩ := unPack_packAndSend_roundTrip littleEndian .empty {1, 2}
    (fun id => if id = 1 then [[7], []] else [[8, 9]]) (fun _ _ => rfl) (by decide)
  have hfirst : ∀ id ∈ ({1, 2} : Finset NetworkID), frames id =
      ((if id = 1 then [[7], []] else [[8, 9]]).map (packAndSend littleEndian)).map
        fun o => (o.getD ([], 0)).1 := fun id hid => by
    rw [hframes id hid, List.map_map]
    exact (List.map_id _).symm
  obtain ⟨-, hall⟩ := hrun calls (by decide) fun id hid => by
    rw [hfirst id hid]
    simp only [Finset.mem_insert, Finset.mem_singleton] at hid
    rcases hid with rfl | rfl <;> decide
  exact ⟨(hall 1 (by decide)).1, (hall 2 (by decide)).1⟩

end RoundTrip

section Robustness

/-- A run keeps to its blocks exactly when what every net id receives is tame. -/
theorem unPackAll_safe_iff (H : HostLayout) (calls : List (NetworkID × Chunk)) :
    ((∃ m', (unPackAll H .empty calls).final = .ok m') ∧
        ∀ e ∈ (unPackAll H .empty calls).events, e.Safe) ↔
      ∀ id, Tame H netPackerFixheadHeaderLength (fed id calls) := by
  constructor
  · rintro ⟨-, hsafe⟩ id
    by_contra hn
    obtain ⟨-, e, he, hs⟩ := unPackAll_empty_of_not_tame hn
    exact hs (hsafe e he)
  · intro ht
    obtain ⟨m', hfin, -, hsafe⟩ := unPackAll_empty_of_tame ht
    exact ⟨⟨m', hfin⟩, hsafe⟩

/-- The header `-1` and one byte more. -/
theorem unPackAll_negative_length : ¬ ∀ e ∈ (unPackAll littleEndian .empty
    [(1, ⟨[255, 255, 255, 255, 0], by decide, by decide⟩)]).events, e.Safe := by
  intro h
  have hcopy : (⟨-1, 1, 4, 4⟩ : MemCopy).InBounds := h (.copy ⟨-1, 1, 4, 4⟩) (by decide)
  exact absurd hcopy.1 (by decide)

end Robustness

end Elegance
