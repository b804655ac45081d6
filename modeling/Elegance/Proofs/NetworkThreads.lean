import Elegance.NetworkThreads
import Elegance.Proofs.NetworkManager

/-!
# The ids of a manager's threads

Whatever the threads of a manager do, the ids drawn and not given back are those of its connections,
each of one, and the two maps lead from the ids of the entered connections to their endpoints and
back (`Ids`).
-/

namespace Elegance

open CInt StrictWeakOrd Machine

variable {κ : Type}

theorem exists_set {α : Type*} {l : List α} {i : ℕ} {a : α} (h : l[i]? = some a) :
    ∃ l₁ l₂, l = l₁ ++ a :: l₂ ∧ ∀ b, l.set i b = l₁ ++ b :: l₂ := by
  obtain ⟨hi, rfl⟩ := List.getElem?_eq_some_iff.1 h
  refine ⟨l.take i, l.drop (i + 1), ?_, fun b => List.set_eq_take_append_cons_drop.trans ?_⟩
  · rw [← List.drop_eq_getElem_cons hi, List.take_append_drop]
  · rw [if_pos hi]

/-- Registering handlers changes their set alone, in which each is once. -/
theorem NetworkManager.foldl_registHandler : ∀ (registered : List Addr) (m : NetworkManager),
    m.handlerList.Nodup → ∃ handlers : List Addr,
      registered.foldl registHandler m = { m with handlerList := handlers } ∧ handlers.Nodup ∧
      ∀ h, h ∈ handlers ↔ h ∈ m.handlerList ∨ h ∈ registered
  | [], m, hm => ⟨m.handlerList, rfl, hm, by simp⟩
  | a :: registered, m, hm => by
    rw [List.foldl_cons, registHandler]
    split_ifs with ha
    · obtain ⟨handlers, hfold, hnodup, hmem⟩ := foldl_registHandler registered m hm
      refine ⟨handlers, hfold, hnodup, fun h => ?_⟩
      rw [hmem, List.mem_cons]
      constructor
      · tauto
      · rintro (h | rfl | h)
        exacts [.inl h, .inl ha, .inr h]
    · have hperm := List.perm_orderedInsert (· ≤ ·) a m.handlerList
      obtain ⟨handlers, hfold, hnodup, hmem⟩ := foldl_registHandler registered
        { m with handlerList := m.handlerList.orderedInsert (· ≤ ·) a }
        (hperm.nodup_iff.2 (List.nodup_cons.2 ⟨ha, hm⟩))
      refine ⟨handlers, hfold, hnodup, fun h => ?_⟩
      rw [hmem, hperm.mem_iff, List.mem_cons, List.mem_cons]
      tauto

namespace NetworkThreads

variable {H : HostLayout} {afterPackage : NetworkID → List Byte → ℤ → Option (List (Addr × κ))}
  {w w' : NetworkThreads κ} {m : NetworkManager} {i : ℕ} {c c' : NetThread κ} {p q : ThreadAt κ}

/-- The ids drawn and not given back. -/
def ids (threads : List (NetThread κ)) : List NetworkID :=
  (threads.filter (·.pos.holds)).map (·.netId)

/-- The two maps are those of the entered connections. -/
structure Tabled (threads : List (NetThread κ)) (t : EndpointTables) : Prop where
  byId : ∀ n e, t.netIdToEndpointMap.find n = some e ↔
    ∃ c ∈ threads, c.entered = true ∧ c.netId = n ∧ c.endpoint = e
  byEndpoint : ∀ e n, t.endpointToNetIdMap.find e = some n ↔
    ∃ c ∈ threads, c.entered = true ∧ c.netId = n ∧ equiv c.endpoint e = true
  keyed : ∀ x ∈ t.endpointToNetIdMap.entries,
    ∃ c ∈ threads, c.entered = true ∧ c.netId = x.2 ∧ c.endpoint = x.1

structure Ids (w : NetworkThreads κ) : Prop where
  pool : Pool 1 (w.mgr.maxNetId + 1) w.mgr.freeNetIdList (ids w.threads)
  max_le : w.mgr.maxNetId ≤ intMax
  apart : w.threads.Pairwise fun c d =>
    c.pos.live = true → d.pos.live = true → equiv c.endpoint d.endpoint = false
  live : ∀ c ∈ w.threads, c.entered = true → c.pos.live = true
  tabled : Tabled w.threads w.mgr.toEndpointTables

theorem ids_set_same (hi : w.threads[i]? = some c) (hholds : c'.pos.holds = c.pos.holds)
    (hid : c'.netId = c.netId) : ids (w.threads.set i c') = ids w.threads := by
  obtain ⟨l₁, l₂, hl, hset⟩ := exists_set hi
  rw [hset, hl]
  simp only [ids, List.filter_append, List.map_append, List.filter_cons, hholds]
  split_ifs <;> simp [hid]

theorem ids_set_release (hi : w.threads[i]? = some c) (hc : c.pos.holds = true)
    (hc' : c'.pos.holds = false) :
    (ids w.threads).Perm (c.netId :: ids (w.threads.set i c')) := by
  obtain ⟨l₁, l₂, hl, hset⟩ := exists_set hi
  rw [hset, hl]
  simp only [ids, List.filter_append, List.map_append, List.filter_cons, hc, hc', if_true,
    Bool.false_eq_true, if_false, List.map_cons]
  exact List.perm_middle

theorem ids_append (threads : List (NetThread κ)) (c : NetThread κ) :
    ids (threads ++ [c]) = ids threads ++ if c.pos.holds then [c.netId] else [] := by
  simp only [ids, List.filter_append, List.map_append, List.filter_cons, List.filter_nil]
  split_ifs <;> simp

theorem holds_of_live (h : p.live = true) : p.holds = true := by
  unfold ThreadAt.holds
  split <;> simp [h]

theorem live_of_isIdle (h : p.isIdle = true) : p.live = true := by
  unfold ThreadAt.isIdle at h
  split at h
  · rfl
  · cases h

@[simp]
theorem live_resume (rest : Option (List Byte)) :
    (ThreadAt.resume rest : ThreadAt κ).live = true := by
  rcases rest with _ | data <;> rfl

/-- The connections other than one that has an id: they have other ids, and while it is live the
live ones have endpoints not equivalent to its own. -/
structure Others (threads : List (NetThread κ)) (i : ℕ) (c : NetThread κ)
    (rest : List (NetThread κ)) : Prop where
  mem : ∀ d, d ∈ threads ↔ d = c ∨ d ∈ rest
  mem_set : ∀ b d, d ∈ threads.set i b ↔ d = b ∨ d ∈ rest
  netId : c.pos.holds = true → ∀ d ∈ rest, d.pos.holds = true → d.netId ≠ c.netId
  endpoint : c.pos.live = true → ∀ d ∈ rest, d.pos.live = true →
    equiv d.endpoint c.endpoint = false

theorem Others.entered_rest {threads rest : List (NetThread κ)} (ho : Others threads i c rest)
    (hlive : ∀ c ∈ threads, c.entered = true → c.pos.live = true) (hc : c.pos.live = true) :
    ∀ d ∈ rest, d.entered = true →
      d.netId ≠ c.netId ∧ equiv d.endpoint c.endpoint = false := by
  intro d hd hd'
  have hd'' := hlive d ((ho.mem d).2 (.inr hd)) hd'
  exact ⟨ho.netId (holds_of_live hc) d hd (holds_of_live hd''), ho.endpoint hc d hd hd''⟩

theorem Others.endpoint_ne {threads rest : List (NetThread κ)} (ho : Others threads i c rest)
    (hlive : ∀ c ∈ threads, c.entered = true → c.pos.live = true) (hc : c.pos.live = true)
    {d : NetThread κ} (hd : d ∈ rest) (hd' : d.entered = true) {e : Endpoint}
    (he : equiv c.endpoint e = true) : ¬ equiv d.endpoint e = true := by
  intro hde
  have hdc : equiv d.endpoint c.endpoint = true := equiv_trans hde (by rwa [equiv_comm])
  rw [(ho.entered_rest hlive hc d hd hd').2] at hdc
  cases hdc

theorem Others.exists_iff {threads rest : List (NetThread κ)} (ho : Others threads i c rest)
    (Q : NetThread κ → Prop) : (∃ d ∈ threads, Q d) ↔ Q c ∨ ∃ d ∈ rest, Q d := by
  simp only [ho.mem, or_and_right, exists_or, exists_eq_left]

theorem Others.exists_set_iff {threads rest : List (NetThread κ)} (ho : Others threads i c rest)
    (b : NetThread κ) (Q : NetThread κ → Prop) :
    (∃ d ∈ threads.set i b, Q d) ↔ Q b ∨ ∃ d ∈ rest, Q d := by
  simp only [ho.mem_set, or_and_right, exists_or, exists_eq_left]

theorem Ids.others (h : Ids w) (hi : w.threads[i]? = some c) :
    ∃ rest, Others w.threads i c rest := by
  obtain ⟨l₁, l₂, hl, hset⟩ := exists_set hi
  have hnodup := h.pool.nodup_used
  have hap := h.apart
  rw [ids, List.Nodup, List.pairwise_map, List.pairwise_filter] at hnodup
  rw [hl, List.pairwise_append, List.pairwise_cons] at hnodup hap
  refine ⟨l₁ ++ l₂, fun d => ?_, fun b d => ?_, fun hc d hd hd' => ?_, fun hc d hd hd' => ?_⟩
  · rw [hl, List.mem_append, List.mem_cons, List.mem_append]
    tauto
  · rw [hset, List.mem_append, List.mem_cons, List.mem_append]
    tauto
  · rcases List.mem_append.1 hd with hd | hd
    · exact hnodup.2.2 d hd c (List.mem_cons_self ..) hd' hc
    · exact (hnodup.2.1.1 d hd hc hd').symm
  · rcases List.mem_append.1 hd with hd | hd
    · exact hap.2.2 d hd c (List.mem_cons_self ..) hd' hc
    · rw [equiv_comm]
      exact hap.2.1.1 d hd hc hd'

theorem pairwise_set {α : Type*} {R : α → α → Prop} {l : List α} {a b : α} (h : l.Pairwise R)
    (hi : l[i]? = some a) (hleft : ∀ x, R x a → R x b) (hright : ∀ x, R a x → R b x) :
    (l.set i b).Pairwise R := by
  obtain ⟨l₁, l₂, rfl, hset⟩ := exists_set hi
  rw [hset]
  rw [List.pairwise_append, List.pairwise_cons] at h ⊢
  refine ⟨h.1, ⟨fun x hx => hright x (h.2.1.1 x hx), h.2.1.2⟩, fun x hx y hy => ?_⟩
  rcases List.mem_cons.1 hy with rfl | hy
  · exact hleft x (h.2.2 x hx a (List.mem_cons_self ..))
  · exact h.2.2 x hx y (List.mem_cons_of_mem _ hy)

theorem Others.live_set {threads rest : List (NetThread κ)} (ho : Others threads i c rest)
    (hlive : ∀ c ∈ threads, c.entered = true → c.pos.live = true) {b : NetThread κ}
    (hb : b.entered = true → b.pos.live = true) :
    ∀ d ∈ threads.set i b, d.entered = true → d.pos.live = true := by
  intro d hd hd'
  rcases (ho.mem_set _ d).1 hd with rfl | hd
  · exact hb hd'
  · exact hlive d ((ho.mem d).2 (.inr hd)) hd'

/-- The tables do not depend on where a thread is. -/
theorem Tabled.goes {threads rest : List (NetThread κ)} {t : EndpointTables} (h : Tabled threads t)
    (ho : Others threads i c rest) : Tabled (threads.set i { c with pos := p }) t := by
  constructor
  · intro n e
    rw [h.byId, ho.exists_iff, ho.exists_set_iff]
  · intro e n
    rw [h.byEndpoint, ho.exists_iff, ho.exists_set_iff]
  · intro x hx
    rw [ho.exists_set_iff]
    exact (ho.exists_iff _).1 (h.keyed x hx)

/-- A thread goes on without a change of its connection or of the tables. -/
theorem Ids.goes (h : Ids w) (hi : w.threads[i]? = some c)
    (ht : w'.threads = w.threads.set i { c with pos := p })
    (hfree : w'.mgr.freeNetIdList = w.mgr.freeNetIdList) (hmax : w'.mgr.maxNetId = w.mgr.maxNetId)
    (htab : w'.mgr.toEndpointTables = w.mgr.toEndpointTables)
    (hlive : p.live = true → c.pos.live = true) (hentered : c.entered = true → p.live = true)
    (hholds : p.holds = c.pos.holds) : Ids w' := by
  obtain ⟨rest, ho⟩ := h.others hi
  refine ⟨?_, hmax ▸ h.max_le, ?_, ?_, ?_⟩
  · have hids : ids (w.threads.set i { c with pos := p }) = ids w.threads :=
      ids_set_same hi hholds rfl
    rw [hmax, hfree, ht, hids]
    exact h.pool
  · rw [ht]
    exact pairwise_set h.apart hi (fun _ hx hd hp => hx hd (hlive hp)) fun _ hx hp => hx (hlive hp)
  · rw [ht]
    exact ho.live_set h.live hentered
  · rw [ht, htab]
    exact h.tabled.goes ho

theorem Ids.move (h : Ids w) (hi : w.threads[i]? = some c) (hq : c.pos = q)
    (ht : w'.threads = w.threads.set i { c with pos := p })
    (hfree : w'.mgr.freeNetIdList = w.mgr.freeNetIdList) (hmax : w'.mgr.maxNetId = w.mgr.maxNetId)
    (htab : w'.mgr.toEndpointTables = w.mgr.toEndpointTables) (hlive : p.live = q.live)
    (hholds : p.holds = q.holds) : Ids w' := by
  subst hq
  refine h.goes hi ht hfree hmax htab (fun hp => hlive ▸ hp) (fun he => ?_) hholds
  rw [hlive]
  exact h.live c (List.mem_of_getElem? hi) he

theorem Ids.of_eq (h : Ids w) (ht : w'.threads = w.threads)
    (hfree : w'.mgr.freeNetIdList = w.mgr.freeNetIdList) (hmax : w'.mgr.maxNetId = w.mgr.maxNetId)
    (htab : w'.mgr.toEndpointTables = w.mgr.toEndpointTables) : Ids w' := by
  constructor <;> simp only [ht, hfree, hmax, htab]
  exacts [h.pool, h.max_le, h.apart, h.live, h.tabled]

/-- The maps get the id of a live connection. -/
theorem Tabled.enter {threads rest : List (NetThread κ)} (h : Tabled threads m.toEndpointTables)
    (hlive : ∀ c ∈ threads, c.entered = true → c.pos.live = true) (ho : Others threads i c rest)
    (hc : c.pos.live = true) (hc' : c' = { c with entered := true, pos := p }) :
    Tabled (threads.set i c') (m.setTables c.netId c.endpoint).toEndpointTables := by
  have hrest : ∀ d ∈ rest, d.entered = true →
      d.netId ≠ c.netId ∧ equiv d.endpoint c.endpoint = false :=
    ho.entered_rest hlive hc
  subst hc'
  constructor
  · intro n e
    rw [ho.exists_set_iff]
    simp only [NetworkManager.setTables, StdMap.find_set, equiv_eq_decide, decide_eq_true_eq]
    split_ifs with hn
    · constructor
      · intro he
        exact .inl ⟨trivial, hn, Option.some.inj he⟩
      · rintro (⟨-, -, he⟩ | ⟨d, hd, hd', hdn, -⟩)
        · exact congrArg some he
        · exact absurd (hdn.trans hn.symm) (hrest d hd hd').1
    · rw [h.byId, ho.exists_iff]
      exact or_congr_left (by simp [hn])
  · intro e n
    rw [ho.exists_set_iff]
    simp only [NetworkManager.setTables, StdMap.find_set]
    split_ifs with he
    · constructor
      · intro hn
        exact .inl ⟨trivial, Option.some.inj hn, he⟩
      · rintro (⟨-, hn, -⟩ | ⟨d, hd, hd', -, hde⟩)
        · exact congrArg some hn
        · exact absurd hde (ho.endpoint_ne hlive hc hd hd' he)
    · rw [h.byEndpoint, ho.exists_iff]
      exact or_congr_left (by simp [he])
  · intro x hx
    rw [ho.exists_set_iff]
    rcases StdMap.mem_entries_set hx with ⟨hx, hne⟩ | ⟨hn, hx | ⟨y, hy, hyx, hye⟩⟩
    · refine ((ho.exists_iff _).1 (h.keyed x hx)).imp_left fun hdx => ?_
      rw [← hdx.2.2, equiv_refl] at hne
      cases hne
    · exact .inl ⟨rfl, hn.symm, hx.symm⟩
    · rcases (ho.exists_iff _).1 (h.keyed y hy) with ⟨-, -, hdy⟩ | ⟨d, hd, hd', -, hdy⟩
      · exact .inl ⟨rfl, hn.symm, hdy.trans hyx⟩
      · rw [← hdy, equiv_comm, (hrest d hd hd').2] at hye
        cases hye

/-- The maps lose the id of a live connection. -/
theorem Tabled.leave {threads rest : List (NetThread κ)} (h : Tabled threads m.toEndpointTables)
    (hlive : ∀ c ∈ threads, c.entered = true → c.pos.live = true) (ho : Others threads i c rest)
    (hc : c.pos.live = true) (hc' : c'.entered = false) :
    Tabled (threads.set i c') (m.eraseTables c.netId c.endpoint).toEndpointTables := by
  have hrest : ∀ d ∈ rest, d.entered = true →
      d.netId ≠ c.netId ∧ equiv d.endpoint c.endpoint = false :=
    ho.entered_rest hlive hc
  constructor
  · intro n e
    rw [ho.exists_set_iff]
    simp only [NetworkManager.eraseTables, StdMap.find_erase, equiv_eq_decide, decide_eq_true_eq]
    split_ifs with hn
    · refine ⟨(nomatch ·), ?_⟩
      rintro (⟨hd', -⟩ | ⟨d, hd, hd', hdn, -⟩)
      · exact absurd hd' (by simp [hc'])
      · exact absurd (hdn.trans hn.symm) (hrest d hd hd').1
    · rw [h.byId, ho.exists_iff]
      exact or_congr_left (by simp [hn, hc'])
  · intro e n
    rw [ho.exists_set_iff]
    simp only [NetworkManager.eraseTables, StdMap.find_erase]
    split_ifs with he
    · refine ⟨(nomatch ·), ?_⟩
      rintro (⟨hd', -⟩ | ⟨d, hd, hd', -, hde⟩)
      · exact absurd hd' (by simp [hc'])
      · exact absurd hde (ho.endpoint_ne hlive hc hd hd' he)
    · rw [h.byEndpoint, ho.exists_iff]
      exact or_congr_left (by simp [he, hc'])
  · intro x hx
    rw [ho.exists_set_iff]
    obtain ⟨hx, hne⟩ := StdMap.mem_entries_erase.1 hx
    refine ((ho.exists_iff _).1 (h.keyed x hx)).imp_left fun hdx => ?_
    rw [← hdx.2.2, equiv_refl] at hne
    cases hne

/-- A live connection finds only its own id. -/
theorem Ids.find_eq (h : Ids w) (hi : w.threads[i]? = some c) (hc : c.pos.live = true)
    {n : NetworkID} (hn : w.mgr.endpointToNetIdMap.find c.endpoint = some n) :
    n = c.netId ∧ c.entered = true := by
  obtain ⟨rest, ho⟩ := h.others hi
  obtain ⟨d, hd, hd', rfl, he⟩ := (h.tabled.byEndpoint _ _).1 hn
  rcases (ho.mem d).1 hd with rfl | hd
  · exact ⟨rfl, hd'⟩
  · rw [ho.endpoint hc d hd (h.live d ((ho.mem d).2 (.inr hd)) hd')] at he
    cases he

/-- `OnAccept` and `OnConnect` enter their connection. -/
theorem Ids.enter (h : Ids w) (hi : w.threads[i]? = some c) (hc : c.pos.live = true)
    (hp : p.live = true) : Ids ({ w with mgr := w.mgr.setTables c.netId c.endpoint }.goesTo i
      { c with entered := true, pos := p }) := by
  obtain ⟨rest, ho⟩ := h.others hi
  refine ⟨?_, h.max_le, ?_, ho.live_set h.live fun _ => hp, h.tabled.enter h.live ho hc rfl⟩
  · have hids : ids (w.threads.set i { c with entered := true, pos := p }) = ids w.threads :=
      ids_set_same hi ((holds_of_live hp).trans (holds_of_live hc).symm) rfl
    show Pool 1 (w.mgr.maxNetId + 1) w.mgr.freeNetIdList (ids (w.threads.set i _))
    rw [hids]
    exact h.pool
  · refine pairwise_set h.apart hi ?_ ?_ <;> simp only [hp, hc] <;> exact fun x hx => hx

/-- `OnDisconnect` takes it out. -/
theorem Ids.leave (h : Ids w) (hi : w.threads[i]? = some c) (hc : c.pos.live = true)
    (hp : p.live = false) (hp' : p.holds = true) :
    Ids ({ w with mgr := w.mgr.eraseTables c.netId c.endpoint }.goesTo i
      { c with entered := false, pos := p }) := by
  obtain ⟨rest, ho⟩ := h.others hi
  refine ⟨?_, h.max_le, ?_, ho.live_set h.live nofun, h.tabled.leave h.live ho hc rfl⟩
  · have hids : ids (w.threads.set i { c with entered := false, pos := p }) = ids w.threads :=
      ids_set_same hi (hp'.trans (holds_of_live hc).symm) rfl
    show Pool 1 (w.mgr.maxNetId + 1) w.mgr.freeNetIdList (ids (w.threads.set i _))
    rw [hids]
    exact h.pool
  · refine pairwise_set h.apart hi ?_ ?_ <;> simp [hp]

/-- It does not find an endpoint that was never entered. -/
theorem Ids.lose (h : Ids w) (hi : w.threads[i]? = some c) (hc : c.pos.live = true)
    (hn : w.mgr.endpointToNetIdMap.find c.endpoint = none) :
    Ids (w.goesTo i { c with pos := .unknown }) := by
  refine h.goes hi rfl rfl rfl rfl (nomatch ·) (fun he => ?_) (holds_of_live hc).symm
  have hfind := (h.tabled.byEndpoint c.endpoint c.netId).2
    ⟨c, List.mem_of_getElem? hi, he, rfl, equiv_refl _⟩
  rw [hn] at hfind
  cases hfind

/-- It gives its id back. -/
theorem Ids.release (h : Ids w) (hi : w.threads[i]? = some c) (hc : c.pos = .pushFree) :
    Ids ({ w with mgr := w.mgr.pushFree c.netId }.goesTo i { c with pos := .finished }) := by
  obtain ⟨rest, ho⟩ := h.others hi
  have hentered : c.entered = false := by
    rw [Bool.eq_false_iff]
    intro he
    have := h.live c (List.mem_of_getElem? hi) he
    rw [hc] at this
    cases this
  have hperm : (ids w.threads).Perm
      (c.netId :: ids (w.threads.set i { c with pos := .finished })) :=
    ids_set_release hi (by rw [hc]; rfl) rfl
  refine ⟨(h.pool.perm hperm).give, h.max_le, ?_, ?_, h.tabled.goes ho⟩
  · exact pairwise_set h.apart hi (fun _ _ _ hp => by cases hp) fun _ _ hp => by cases hp
  · refine ho.live_set h.live fun he => ?_
    rw [hentered] at he
    cases he

/-- A thread that has entered no connection joins the others. -/
theorem Tabled.join {threads : List (NetThread κ)} {t : EndpointTables} (h : Tabled threads t)
    (hc : c.entered = false) : Tabled (threads ++ [c]) t := by
  constructor
  · intro n e
    rw [h.byId]
    simp [or_and_right, exists_or, hc]
  · intro e n
    rw [h.byEndpoint]
    simp [or_and_right, exists_or, hc]
  · intro x hx
    obtain ⟨d, hd, hd'⟩ := h.keyed x hx
    exact ⟨d, List.mem_append_left _ hd, hd'⟩

/-- With no id free a new one is made. -/
theorem Ids.getFreeNetID_make (h : Ids w) (hf : w.mgr.freeNetIdList = [])
    (hmax : w.mgr.maxNetId ≠ intMax) :
    w.mgr.getFreeNetID = (w.mgr.maxNetId + 1, { w.mgr with maxNetId := w.mgr.maxNetId + 1 }) := by
  have hcount := h.pool.count
  have hle := h.max_le
  have hwrap : wrap32 (w.mgr.maxNetId + 1) = w.mgr.maxNetId + 1 := by
    refine wrap32_of_range ?_ ?_
    · rw [intMin]
      omega
    · omega
  unfold NetworkManager.getFreeNetID
  rw [hf]
  dsimp only
  rw [hwrap, hf]

theorem max_getFreeNetID_le (h : Ids w)
    (hroom : ¬ (w.mgr.freeNetIdList = [] ∧ w.mgr.maxNetId = intMax)) :
    w.mgr.getFreeNetID.2.maxNetId ≤ intMax := by
  have hle := h.max_le
  rcases hf : w.mgr.freeNetIdList with _ | ⟨n, rest⟩
  · have hne : w.mgr.maxNetId ≠ intMax := fun hm => hroom ⟨hf, hm⟩
    rw [h.getFreeNetID_make hf hne]
    dsimp only
    omega
  · unfold NetworkManager.getFreeNetID
    rw [hf]
    exact hle

/-- The id drawn is nobody's. -/
theorem Ids.pool_getFreeNetID (h : Ids w)
    (hroom : ¬ (w.mgr.freeNetIdList = [] ∧ w.mgr.maxNetId = intMax)) :
    Pool 1 (w.mgr.getFreeNetID.2.maxNetId + 1) w.mgr.getFreeNetID.2.freeNetIdList
      (w.mgr.getFreeNetID.1 :: ids w.threads) ∧ w.mgr.getFreeNetID.1 ∉ ids w.threads := by
  have hcount := h.pool.count
  have hmax := h.max_le
  refine NetworkManager.pool_getFreeNetID ?_ h.pool
  rw [List.length_append] at hcount
  rcases hf : w.mgr.freeNetIdList with _ | ⟨n, rest⟩
  · have : w.mgr.maxNetId ≠ intMax := fun hm => hroom ⟨hf, hm⟩
    simp only [hf, List.length_nil] at hcount
    omega
  · simp only [hf, List.length_cons] at hcount
    omega

theorem Ids.opens (h : Ids w) {kind : SocketKind} {check : Addr → Bool} {endpoint : Endpoint}
    (hap : w.Apart endpoint) : Ids (w.opens kind check endpoint) := by
  unfold NetworkThreads.opens
  split_ifs with hroom
  · exact h.of_eq rfl rfl rfl rfl
  obtain ⟨hpool, -⟩ := h.pool_getFreeNetID hroom
  have htab : w.mgr.getFreeNetID.2.toEndpointTables = w.mgr.toEndpointTables := by
    rw [NetworkManager.getFreeNetID_fields]
  refine ⟨?_, max_getFreeNetID_le h hroom, ?_, ?_, ?_⟩
  · have hids := ids_append w.threads
      { kind, endpoint, netId := w.mgr.getFreeNetID.1, pos := .checkSockets check }
    dsimp only
    rw [hids]
    exact hpool.perm (List.perm_append_singleton _ _).symm
  · refine List.pairwise_append.2 ⟨h.apart, List.pairwise_singleton _ _, fun c hc d hd hl _ => ?_⟩
    rw [List.mem_singleton.1 hd]
    exact hap c hc hl
  · intro c hc he
    rcases List.mem_append.1 hc with hc | hc
    · exact h.live c hc he
    · rw [List.mem_singleton.1 hc] at he
      cases he
  · dsimp only
    rw [htab]
    exact h.tabled.join rfl

theorem Ids.report (h : Ids w) (task : NetworkHandleTask) (call : HandlerCall) :
    Ids { w with threads := w.threads ++ [{ pos := .report task call }] } := by
  refine ⟨?_, h.max_le, ?_, ?_, h.tabled.join rfl⟩
  · dsimp only
    rw [ids_append]
    simpa [ThreadAt.holds, ThreadAt.live, ThreadAt.closing] using h.pool
  · refine List.pairwise_append.2 ⟨h.apart, List.pairwise_singleton _ _, fun c _ d hd _ hl => ?_⟩
    rw [List.mem_singleton.1 hd] at hl
    cases hl
  · intro c hc he
    rcases List.mem_append.1 hc with hc | hc
    · exact h.live c hc he
    · rw [List.mem_singleton.1 hc] at he
      cases he

theorem Ids.told (h : Ids w) (hi : w.threads[i]? = some c) (hq : c.pos = q)
    {r : NetworkManager × List (Addr × HandlerCall)}
    (hr : r.1 = { w.mgr with handleTaskQueue := r.1.handleTaskQueue })
    (hlive : p.live = q.live) (hholds : p.holds = q.holds) :
    Ids ((w.told i r).goesTo i { c with pos := p }) := by
  refine h.move hi hq rfl ?_ ?_ ?_ hlive hholds <;> simp only [goesTo, NetworkThreads.told] <;>
    rw [hr]

theorem onRecvPackage_cases {m : NetworkManager} {netId : NetworkID} {data : List Byte} {length : ℤ}
    {r : NetworkManager × List (Addr × HandlerCall)}
    (h : m.onRecvPackage netId data length = some r) :
    r = (m, []) ∨ 0 < netId ∧ r = m.tell
      { taskType := .onRecv, netId, data := data.take length.toNat, length }
      (.onRecv netId (data.take length.toNat) length) := by
  unfold NetworkManager.onRecvPackage at h
  split_ifs at h with hpos
  · exact .inl (Option.some.inj h).symm
  · push Not at hpos
    exact .inr ⟨hpos.1, (Option.some.inj h).symm⟩

theorem ids_runThread (h : Ids w) (hi : w.threads[i]? = some c) :
    Ids (w.runThread H afterPackage i c) := by
  have hmove : ∀ {p q : ThreadAt κ}, c.pos = q → p.live = q.live → p.holds = q.holds →
      Ids (w.goesTo i { c with pos := p }) := fun hq => h.move hi hq rfl rfl rfl rfl
  have hcall : ∀ {handler : Addr} {call : HandlerCall ⊕ κ} {p q : ThreadAt κ}, c.pos = q →
      p.live = q.live → p.holds = q.holds →
      Ids ((w.callsHandler i handler call).goesTo i { c with pos := p }) :=
    fun hq => h.move hi hq rfl rfl rfl rfl
  unfold runThread
  split
  case h_1 check hp => exact hmove hp rfl rfl
  case h_2 hp => exact hmove hp rfl rfl
  case h_3 socket found hp =>
    have hmgr : ∀ kind, (w.mgr.setOwner c.netId socket kind).freeNetIdList = w.mgr.freeNetIdList ∧
        (w.mgr.setOwner c.netId socket kind).maxNetId = w.mgr.maxNetId ∧
        (w.mgr.setOwner c.netId socket kind).toEndpointTables = w.mgr.toEndpointTables := by
      rintro (_ | _) <;> exact ⟨rfl, rfl, rfl⟩
    exact h.move hi hp rfl (hmgr _).1 (hmgr _).2.1 (hmgr _).2.2 rfl rfl
  case h_4 found hp => exact h.enter hi (by rw [hp]; rfl) rfl
  case h_5 hp => exact h.told hi hp (NetworkManager.tell_fields _ _ _) rfl rfl
  case h_6 hp => exact hmove hp rfl rfl
  case h_7 hp => exact hcall hp rfl rfl
  case h_8 data hp =>
    dsimp only
    split
    · refine h.move hi hp rfl rfl rfl rfl ?_ ?_ <;> split
      exacts [rfl, live_resume _, rfl, holds_of_live (live_resume _)]
    · exact h.of_eq rfl rfl rfl rfl
  case h_9 data length rest hp =>
    split
    · next r hr =>
      refine h.told hi hp ?_ rfl rfl
      rcases onRecvPackage_cases hr with rfl | ⟨-, rfl⟩
      · rfl
      · exact NetworkManager.tell_fields _ _ _
    · exact h.of_eq rfl rfl rfl rfl
  case h_10 hp => exact hmove hp rfl rfl
  case h_11 hp => exact hcall hp rfl rfl
  case h_12 hp =>
    split
    · exact hmove hp rfl rfl
    · exact h.of_eq rfl rfl rfl rfl
  case h_13 hp => exact hmove hp (live_resume _) (holds_of_live (live_resume _))
  case h_14 hp => exact hcall hp rfl rfl
  case h_15 hp => exact h.move hi hp rfl rfl rfl rfl rfl rfl
  case h_16 hp => exact h.told hi hp (NetworkManager.tell_fields _ _ _) rfl rfl
  case h_17 hp => exact hmove hp rfl rfl
  case h_18 hp => exact hcall hp rfl rfl
  case h_19 hp => exact h.release hi hp
  case h_20 hp => exact h.told hi hp (NetworkManager.tell_fields _ _ _) rfl rfl
  case h_21 hp => exact hmove hp rfl rfl
  case h_22 hp => exact hcall hp rfl rfl
  all_goals exact h

theorem ids_step {ev : ThreadsEvent} (h : Ids w) (hcan : w.Can ev) :
    Ids (w.step H afterPackage ev) := by
  cases ev with
  | insertSocket kind a =>
    rcases kind with _ | _ <;> simp only [step, NetworkManager.insertSocket] <;> split_ifs <;>
      exact h.of_eq rfl rfl rfl rfl
  | eraseSocket kind a => rcases kind with _ | _ <;> exact h.of_eq rfl rfl rfl rfl
  | listenFail port => exact h.report _ _
  | connectFail ip port localPort => exact h.report _ _
  | accept accepts ip port localPort => exact h.opens hcan.2
  | connect connects ip port localPort => exact h.opens hcan.2
  | recv i data =>
    obtain ⟨c, hi, hc⟩ := hcan.2
    have hlive := live_of_isIdle hc
    have hi : w.threads[i]? = some c := hi
    simp only [step, hi]
    split
    · exact h
    · next n hn =>
      rw [(h.find_eq hi hlive hn).1]
      exact h.move hi rfl rfl rfl rfl rfl hlive.symm (holds_of_live hlive).symm
  | disconnect i =>
    obtain ⟨c, hi, hc⟩ := hcan.2
    have hlive := live_of_isIdle hc
    have hi : w.threads[i]? = some c := hi
    simp only [step, hi]
    split
    · next hn => exact h.lose hi hlive hn
    · next n hn =>
      rw [(h.find_eq hi hlive hn).1]
      exact h.leave hi hlive rfl rfl
  | run i =>
    simp only [step]
    split
    · exact h
    · next c hi => exact ids_runThread h hi
  | handleNetTask =>
    simp only [step, NetworkManager.handleNetTask]
    split <;> exact h.of_eq rfl rfl rfl rfl
  | handle =>
    simp only [step]
    split
    · exact h
    · exact h.of_eq rfl rfl rfl rfl

theorem ids_start (registered : List Addr) (singleThread : Bool) :
    Ids (start registered singleThread : NetworkThreads κ) := by
  obtain ⟨handlers, hm, -⟩ := NetworkManager.foldl_registHandler registered
    { singleThreadHandleMode := singleThread } .nil
  have hempty : Tabled ([] : List (NetThread κ)) {} := by
    refine ⟨by simp, by simp, fun x hx => ?_⟩
    cases hx
  refine ⟨?_, ?_, .nil, by simp [start], ?_⟩ <;> simp only [start] <;> rw [hm]
  · exact .empty 1
  · exact Int.zero_le_ofNat _
  · exact hempty

section Run

variable {registered : List Addr} {singleThread : Bool} {es : List ThreadsEvent}

/-- In a run the ids stay those of the connections. -/
theorem ids_exec (hcan : Along (step H afterPackage) Can (start registered singleThread) es) :
    Ids (exec (step H afterPackage) (start registered singleThread) es) :=
  invariant (fun _ _ => ids_step) (ids_start registered singleThread) hcan

theorem ids_along (hcan : Along (step H afterPackage) Can (start registered singleThread) es) :
    Along (step H afterPackage) (fun w ev => Can w ev ∧ Ids w) (start registered singleThread) es :=
  along_invariant (fun _ _ => ids_step) (ids_start registered singleThread) hcan

end Run

end NetworkThreads

end Elegance
