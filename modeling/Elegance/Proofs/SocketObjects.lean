import Elegance.SocketObjects
import Elegance.Proofs.NetworkManager

/-!
# No net id leads to a deleted object, as long as the loops leave none behind

The manager's tables lead just where the connections it holds say (`Tracks`), so an object is taken
off its list under a net id exactly when its loop returns with a connection still held for it
(`noDangling_iff`).
-/

namespace Elegance

open CInt Machine StrictWeakOrd NetworkManager

section Held

variable {held : List Held} {owner : Owner} {netId : NetworkID} {e : Endpoint}

theorem mem_hold {h : Held} : h ∈ hold held (some owner) netId e ↔
    (∃ h₀ ∈ held, { h₀ with shadowed := h₀.shadowed || equiv h₀.endpoint e } = h) ∨
      h = ⟨owner, netId, e, false⟩ := by
  simp [hold]

theorem map_netId_hold : (hold held (some owner) netId e).map Held.netId =
    held.map Held.netId ++ [netId] := by
  rw [hold, List.map_append, List.map_map]
  rfl

theorem mem_letGo {h : Held} :
    h ∈ letGo held e ↔ h ∈ held ∧ (h.shadowed = false → equiv h.endpoint e = false) := by
  rw [letGo, List.mem_filter]
  cases h.shadowed <;> simp

end Held

namespace NetworkManager

variable {m m' : NetworkManager} {held : List Held} {e : Endpoint} {netId : NetworkID}

/-- The tables have the connections held and no others. -/
structure Tracks (m : NetworkManager) (held : List Held) : Prop where
  pool : Pool 1 (m.maxNetId + 1) m.freeNetIdList (held.map Held.netId)
  leads : ∀ netId owner, m.Leads netId owner ↔ ∃ h ∈ held, h.netId = netId ∧ h.owner = owner
  found : ∀ e netId, m.endpointToNetIdMap.find e = some netId ↔
    ∃ h ∈ held, h.shadowed = false ∧ equiv h.endpoint e = true ∧ h.netId = netId

theorem leads_congr (haccept : m'.netIdToAccept = m.netIdToAccept)
    (hconnect : m'.netIdToConnect = m.netIdToConnect) (owner : Owner) :
    m'.Leads netId owner ↔ m.Leads netId owner := by
  cases owner <;> simp only [Leads, haccept, hconnect]

theorem lists_congr (haccept : m'.acceptList = m.acceptList)
    (hconnect : m'.connectList = m.connectList) (owner : Owner) :
    m'.Lists owner ↔ m.Lists owner := by
  cases owner <;> simp only [Lists, haccept, hconnect]

/-- Which objects are listed and what is queued is not in the tables. -/
theorem Tracks.relisted (h : Tracks m held) (acceptList connectList : List Addr)
    (handleTaskQueue : List NetworkHandleTask) :
    Tracks { m with acceptList, connectList, handleTaskQueue } held where
  pool := h.pool
  leads netId owner := (leads_congr rfl rfl owner).trans (h.leads netId owner)
  found := h.found

theorem Tracks.eq_of_netId (h : Tracks m held) {c d : Held} (hc : c ∈ held) (hd : d ∈ held)
    (heq : c.netId = d.netId) : c = d :=
  List.inj_on_of_nodup_map h.pool.nodup_used hc hd heq

theorem Tracks.not_leads_getFreeNetID (h : Tracks m held) (hlen : (held.length : ℤ) < intMax)
    (owner : Owner) : ¬ m.Leads m.getFreeNetID.1 owner := by
  intro hleads
  obtain ⟨c, hc, heq, -⟩ := (h.leads _ _).1 hleads
  refine (pool_getFreeNetID (by rwa [List.length_map]) h.pool).2 ?_
  rw [← heq]
  exact List.mem_map_of_mem hc

theorem Tracks.hold (h : Tracks m held) (hlen : (held.length : ℤ) < intMax) {owner : Owner}
    (ho : Opens m m' e) (hleads : ∀ netId owner', m'.Leads netId owner' ↔
      netId = m.getFreeNetID.1 ∧ owner' = owner ∨ m.Leads netId owner') :
    Tracks m' (hold held (some owner) m.getFreeNetID.1 e) where
  pool := by
    rw [map_netId_hold, ho.free, ho.max]
    exact (pool_getFreeNetID (by rwa [List.length_map]) h.pool).1.perm
      (List.perm_append_singleton _ _).symm
  leads netId owner' := by
    rw [hleads, h.leads]
    constructor
    · rintro (⟨rfl, rfl⟩ | ⟨c, hc, rfl, rfl⟩)
      · exact ⟨_, mem_hold.2 (.inr rfl), rfl, rfl⟩
      · exact ⟨_, mem_hold.2 (.inl ⟨c, hc, rfl⟩), rfl, rfl⟩
    · rintro ⟨c, hc, rfl, rfl⟩
      rcases mem_hold.1 hc with ⟨d, hd, rfl⟩ | rfl
      · exact .inr ⟨d, hd, rfl, rfl⟩
      · exact .inl ⟨rfl, rfl⟩
  found e' netId := by
    rw [ho.byEndpoint]
    constructor
    · intro hfind
      split_ifs at hfind with he
      · exact ⟨_, mem_hold.2 (.inr rfl), rfl, he, Option.some.inj hfind⟩
      · obtain ⟨c, hc, hshadowed, hequiv, hnetId⟩ := (h.found e' netId).1 hfind
        refine ⟨_, mem_hold.2 (.inl ⟨c, hc, rfl⟩), ?_, hequiv, hnetId⟩
        have hne : equiv c.endpoint e = false := by
          rw [← Bool.not_eq_true]
          exact fun hce => he (equiv_trans (equiv_comm c.endpoint e ▸ hce) hequiv)
        rw [hshadowed, hne]
        rfl
    · rintro ⟨c, hc, hshadowed, hequiv, rfl⟩
      rcases mem_hold.1 hc with ⟨d, hd, rfl⟩ | rfl
      · simp only [Bool.or_eq_false_iff] at hshadowed
        have hne : ¬ equiv e e' = true := fun he => by
          have hde := equiv_trans hequiv (equiv_comm e e' ▸ he)
          rw [hshadowed.2] at hde
          cases hde
        rw [if_neg hne]
        exact (h.found e' _).2 ⟨d, hd, hshadowed.1, hequiv, rfl⟩
      · rw [if_pos hequiv]

/-- What is let go of is the connection whose id is found. -/
theorem Tracks.mem_letGo_iff (h : Tracks m held) {c : Held} (hc : c ∈ held)
    (hshadowed : c.shadowed = false) (hequiv : equiv c.endpoint e = true) (d : Held) :
    d ∈ letGo held e ↔ d ∈ held ∧ d.netId ≠ c.netId := by
  rw [mem_letGo]
  refine and_congr_right fun hd => ⟨fun hne heq => ?_, fun hne hdshadowed => ?_⟩
  · rw [h.eq_of_netId hd hc heq, hequiv] at hne
    cases hne hshadowed
  · rw [← Bool.not_eq_true]
    intro hdequiv
    have hfind := (h.found e c.netId).2 ⟨c, hc, hshadowed, hequiv, rfl⟩
    rw [(h.found e d.netId).2 ⟨d, hd, hdshadowed, hdequiv, rfl⟩] at hfind
    exact hne (Option.some.inj hfind)

theorem Tracks.perm (h : Tracks m held) {c : Held} (hc : c ∈ held)
    (hshadowed : c.shadowed = false) (hequiv : equiv c.endpoint e = true) :
    held.Perm (c :: letGo held e) := by
  have hnodup : held.Nodup := List.Nodup.of_map _ h.pool.nodup_used
  have hnot : c ∉ letGo held e := fun hmem =>
    ((h.mem_letGo_iff hc hshadowed hequiv c).1 hmem).2 rfl
  refine (List.perm_ext_iff_of_nodup hnodup (List.nodup_cons.2 ⟨hnot, hnodup.filter _⟩)).2
    fun d => ?_
  rw [List.mem_cons, h.mem_letGo_iff hc hshadowed hequiv]
  constructor
  · intro hd
    by_cases heq : d.netId = c.netId
    · exact .inl (h.eq_of_netId hd hc heq)
    · exact .inr ⟨hd, heq⟩
  · rintro (rfl | hd)
    · exact hc
    · exact hd.1

theorem Closes.leads_iff (hcl : Closes m m' netId e) (netId' : NetworkID) (owner : Owner) :
    m'.Leads netId' owner ↔ netId' ≠ netId ∧ m.Leads netId' owner := by
  cases owner <;> simp only [Leads, hcl.accept, hcl.connect] <;> split_ifs with heq <;> simp [heq]

theorem Tracks.letGo (h : Tracks m held) (e : Endpoint) :
    Tracks (m.onDisconnect e.remoteIpAddr e.remotePort e.localPort).1 (letGo held e) := by
  rcases hfind : m.endpointToNetIdMap.find e with _ | netId
  · have hsame : Elegance.letGo held e = held := by
      refine List.filter_eq_self.2 fun c hc => ?_
      rw [Bool.or_eq_true, Bool.not_eq_true']
      by_contra hfound
      simp only [not_or, Bool.not_eq_true, Bool.not_eq_false] at hfound
      rw [(h.found e c.netId).2 ⟨c, hc, hfound.1, hfound.2, rfl⟩] at hfind
      cases hfind
    rw [hsame, onDisconnect, hfind]
    exact h
  · obtain ⟨c, hc, hshadowed, hequiv, rfl⟩ := (h.found e netId).1 hfind
    have hcl := onDisconnect_closes hfind
    have hmem := h.mem_letGo_iff hc hshadowed hequiv
    refine ⟨?_, fun netId owner => ?_, fun e' netId => ?_⟩
    · rw [hcl.free, hcl.max]
      exact (h.pool.perm ((h.perm hc hshadowed hequiv).map Held.netId)).give
    · rw [hcl.leads_iff, h.leads]
      constructor
      · rintro ⟨hne, d, hd, rfl, rfl⟩
        exact ⟨d, (hmem d).2 ⟨hd, hne⟩, rfl, rfl⟩
      · rintro ⟨d, hd, rfl, rfl⟩
        exact ⟨((hmem d).1 hd).2, d, ((hmem d).1 hd).1, rfl, rfl⟩
    · rw [hcl.byEndpoint]
      constructor
      · intro hfind'
        split_ifs at hfind' with he
        obtain ⟨d, hd, hdshadowed, hdequiv, rfl⟩ := (h.found e' netId).1 hfind'
        refine ⟨d, mem_letGo.2 ⟨hd, fun _ => ?_⟩, hdshadowed, hdequiv, rfl⟩
        rw [← Bool.not_eq_true]
        exact fun hde => he (equiv_trans (equiv_comm d.endpoint e ▸ hde) hdequiv)
      · rintro ⟨d, hd, hdshadowed, hdequiv, rfl⟩
        obtain ⟨hd, hne⟩ := mem_letGo.1 hd
        rw [if_neg fun he => ?_]
        · exact (h.found e' _).2 ⟨d, hd, hdshadowed, hdequiv, rfl⟩
        · have hde := equiv_trans hdequiv (equiv_comm e e' ▸ he)
          rw [hne hdshadowed] at hde
          cases hde

section Open

variable {accepts : Addr → SocketAccept} {connects : Addr → SocketConnect} {ip : IPAddr}
  {port localPort : Port} {a : Addr}

/-- Under a new id the owner entered is found, under the others what was. -/
theorem find_entered_iff {owners : StdMap NetworkID Addr} {new : NetworkID} {b : Addr}
    (hnew : owners.find new ≠ some b) :
    (if netId = new then (some a).or (owners.find netId) else owners.find netId) = some b ↔
      netId = new ∧ b = a ∨ owners.find netId = some b := by
  split_ifs with heq
  · subst heq
    simp [hnew, eq_comm]
  · simp [heq]

theorem leads_onAccept (hnew : ∀ owner, ¬ m.Leads m.getFreeNetID.1 owner)
    (ha : SocketObjects.acceptOwner m accepts ip port = some a) (netId : NetworkID)
    (owner : Owner) : (m.onAccept accepts ip port localPort).1.Leads netId owner ↔
      netId = m.getFreeNetID.1 ∧ owner = .accept a ∨ m.Leads netId owner := by
  obtain ⟨haccept, hconnect⟩ := @onAccept_owners m accepts ip port localPort netId
  rw [SocketObjects.acceptOwner] at ha
  cases owner with
  | connect b => simp [Leads, hconnect]
  | accept b =>
    rw [Leads, haccept, ha, find_entered_iff (hnew (.accept b))]
    simp [Leads]

theorem leads_onConnect (hnew : ∀ owner, ¬ m.Leads m.getFreeNetID.1 owner)
    (ha : SocketObjects.connectOwner m connects ip port = some a) (netId : NetworkID)
    (owner : Owner) : (m.onConnect connects ip port localPort).1.Leads netId owner ↔
      netId = m.getFreeNetID.1 ∧ owner = .connect a ∨ m.Leads netId owner := by
  obtain ⟨hconnect, haccept⟩ := @onConnect_owners m connects ip port localPort netId
  rw [SocketObjects.connectOwner] at ha
  cases owner with
  | accept b => simp [Leads, haccept]
  | connect b =>
    rw [Leads, hconnect, ha, find_entered_iff (hnew (.connect b))]
    simp [Leads]

end Open

theorem lists_onDisconnect (e : Endpoint) :
    (m.onDisconnect e.remoteIpAddr e.remotePort e.localPort).1.acceptList = m.acceptList ∧
      (m.onDisconnect e.remoteIpAddr e.remotePort e.localPort).1.connectList = m.connectList := by
  rcases hfind : m.endpointToNetIdMap.find e with _ | netId
  · rw [onDisconnect, hfind]
    exact ⟨rfl, rfl⟩
  · have hcl := onDisconnect_closes hfind
    exact ⟨hcl.acceptList, hcl.connectList⟩

theorem afterListen_eq (m : NetworkManager) (a : Addr) (port : Port) :
    ∃ handleTaskQueue, (m.afterListen a port).1 =
      { m with acceptList := m.acceptList.erase a, handleTaskQueue } := by
  rw [afterListen]
  dsimp only
  rw [tell_fields]
  exact ⟨_, rfl⟩

theorem afterConnect_eq (m : NetworkManager) (a : Addr) (ip : IPAddr) (port localPort : Port)
    (connectResult : Bool) : ∃ handleTaskQueue,
      (m.afterConnect a ip port localPort connectResult).1 =
        { m with connectList := m.connectList.erase a, handleTaskQueue } := by
  rw [afterConnect]
  split_ifs
  · exact ⟨_, rfl⟩
  · dsimp only
    rw [tell_fields]
    exact ⟨_, rfl⟩

end NetworkManager

namespace SocketObjects

variable {w : SocketObjects} {ev : ObjectsEvent}

/-- The tables have the connections held, each for a listed object. -/
structure Kept (w : SocketObjects) : Prop where
  tracks : Tracks w.mgr w.held
  listed : ∀ h ∈ w.held, w.mgr.Lists h.owner
  nodupAccept : w.mgr.acceptList.Nodup
  nodupConnect : w.mgr.connectList.Nodup

theorem kept_start (handlers : List Addr) (singleThread : Bool) :
    Kept (start handlers singleThread) where
  tracks := ⟨Pool.empty 1, fun netId owner => by cases owner <;> simp [start, Leads],
    fun e netId => by simp [start]⟩
  listed h hh := by cases hh
  nodupAccept := .nil
  nodupConnect := .nil

theorem Kept.noDangling (h : Kept w) : w.mgr.NoDangling := by
  intro netId owner hleads
  obtain ⟨c, hc, -, rfl⟩ := (h.tracks.leads netId owner).1 hleads
  exact h.listed c hc

theorem Kept.relisted (h : Kept w) {w' : SocketObjects} {acceptList connectList : List Addr}
    {handleTaskQueue : List NetworkHandleTask}
    (hmgr : w'.mgr = { w.mgr with acceptList, connectList, handleTaskQueue })
    (hheld : w'.held = w.held)
    (hlisted : ∀ owner, (∃ c ∈ w.held, c.owner = owner) → w.mgr.Lists owner → w'.mgr.Lists owner)
    (hnodupAccept : acceptList.Nodup) (hnodupConnect : connectList.Nodup) : Kept w' where
  tracks := by
    rw [hmgr, hheld]
    exact h.tracks.relisted _ _ _
  listed := by
    rw [hheld]
    exact fun c hc => hlisted c.owner ⟨c, hc, rfl⟩ (h.listed c hc)
  nodupAccept := by rwa [hmgr]
  nodupConnect := by rwa [hmgr]

/-- A step that leaves the manager alone. -/
theorem Kept.of_eq (h : Kept w) {w' : SocketObjects} (hmgr : w'.mgr = w.mgr)
    (hheld : w'.held = w.held) : Kept w' :=
  h.relisted hmgr hheld (fun _ _ hlists => hmgr ▸ hlists) h.nodupAccept h.nodupConnect

theorem Kept.opened (h : Kept w) {w' : SocketObjects} {owner : Owner} {e : Endpoint}
    (hlen : (w.held.length : ℤ) < intMax) (hopens : Opens w.mgr w'.mgr e)
    (hleads : ∀ netId owner', w'.mgr.Leads netId owner' ↔
      netId = w.mgr.getFreeNetID.1 ∧ owner' = owner ∨ w.mgr.Leads netId owner')
    (hlisted : w.mgr.Lists owner)
    (hheld : w'.held = hold w.held (some owner) w.mgr.getFreeNetID.1 e) : Kept w' where
  tracks := by
    rw [hheld]
    exact h.tracks.hold hlen hopens hleads
  listed c hc := by
    rw [hheld] at hc
    refine (lists_congr hopens.acceptList hopens.connectList _).2 ?_
    rcases mem_hold.1 hc with ⟨d, hd, rfl⟩ | rfl
    · exact h.listed d hd
    · exact hlisted
  nodupAccept := hopens.acceptList ▸ h.nodupAccept
  nodupConnect := hopens.connectList ▸ h.nodupConnect

theorem Kept.reported (h : Kept w) (e : Endpoint) : Kept (w.reportEnd e) where
  tracks := h.tracks.letGo e
  listed c hc := by
    obtain ⟨haccept, hconnect⟩ := lists_onDisconnect (m := w.mgr) e
    exact (lists_congr haccept hconnect c.owner).2 (h.listed c (mem_letGo.1 hc).1)
  nodupAccept := (lists_onDisconnect (m := w.mgr) e).1 ▸ h.nodupAccept
  nodupConnect := (lists_onDisconnect (m := w.mgr) e).2 ▸ h.nodupConnect

/-- The object that reports a connection passes the test, so some object is entered. -/
theorem exists_entered {sockets : List Addr} {check : Addr → Bool} {a : Addr} (ha : a ∈ sockets)
    (hcheck : check a = true) : ∃ b ∈ sockets, (sockets.filter check).getLast? = some b := by
  have hne : sockets.filter check ≠ [] := List.ne_nil_of_mem (List.mem_filter.2 ⟨ha, hcheck⟩)
  exact ⟨_, List.mem_of_mem_filter (List.getLast_mem hne), List.getLast?_eq_some_getLast hne⟩

theorem kept_accept {a : Addr} {sock : ℤ} {ip : IPAddr} {port : Port} (h : Kept w)
    (hcan : w.Can (.accept a sock ip port)) : Kept (w.step (.accept a sock ip port)) := by
  obtain ⟨⟨ha, -⟩, -, hlen⟩ := hcan
  set accepts := Function.update w.accepts a ((w.accepts a).accepted sock ip port) with haccepts
  have hcheck : (accepts a).checkOnHandle ip port = true := by
    rw [haccepts, Function.update_self]
    exact SocketAccept.checkOnHandle_accepted _ _ _ _
  obtain ⟨b, hb, hentered⟩ : ∃ b ∈ w.mgr.acceptList, acceptOwner w.mgr accepts ip port = some b :=
    exists_entered ha hcheck
  have hfresh := h.tracks.not_leads_getFreeNetID hlen
  refine h.opened hlen (onAccept_opens ⟨a, ha, hcheck⟩) (leads_onAccept hfresh hentered) hb ?_
  rw [step]
  dsimp only
  rw [← haccepts, hentered]
  rfl

theorem kept_connect {a : Addr} {localPort : Port} (h : Kept w)
    (hcan : w.Can (.connect a localPort)) : Kept (w.step (.connect a localPort)) := by
  obtain ⟨ha, ⟨-, hrunning⟩, hlen⟩ := hcan
  rcases htarget : w.targets a with ⟨ip, port⟩
  set connects := Function.update w.connects a ((w.connects a).connected ip port localPort)
    with hconnects
  have hcheck : (connects a).checkOnHandle ip port = true := by
    rw [hconnects, Function.update_self]
    exact SocketConnect.checkOnHandle_connected hrunning _ _ _
  obtain ⟨b, hb, hentered⟩ : ∃ b ∈ w.mgr.connectList,
      connectOwner w.mgr connects ip port = some b := exists_entered ha hcheck
  have hfresh := h.tracks.not_leads_getFreeNetID hlen
  have hstep : (w.step (.connect a localPort)).mgr =
        (w.mgr.onConnect connects ip port localPort).1 ∧
      (w.step (.connect a localPort)).held =
        hold w.held (some (.connect b)) w.mgr.getFreeNetID.1 ⟨ip, port, localPort⟩ := by
    rw [step, htarget]
    dsimp only
    rw [← hconnects, hentered]
    exact ⟨rfl, rfl⟩
  have hlists : w.mgr.Lists (.connect b) := hb
  refine h.opened hlen (hstep.1 ▸ onConnect_opens ⟨a, ha, hcheck⟩) ?_ hlists hstep.2
  rw [hstep.1]
  exact leads_onConnect hfresh hentered

theorem kept_listenThread {a : Addr} {port : Port} (h : Kept w)
    (hcan : w.Can (.listenThread a port)) : Kept (w.step (.listenThread a port)) := by
  refine h.relisted rfl rfl ?_ (nodup_orderedInsert hcan.1 h.nodupAccept) h.nodupConnect
  rintro (b | b) - hlists
  · exact (List.mem_orderedInsert _).2 (.inr hlists)
  · exact hlists

theorem kept_connectThread {a : Addr} {ip : IPAddr} {port : Port} (h : Kept w)
    (hcan : w.Can (.connectThread a ip port)) : Kept (w.step (.connectThread a ip port)) := by
  refine h.relisted rfl rfl ?_ h.nodupAccept (nodup_orderedInsert hcan.2 h.nodupConnect)
  rintro (b | b) - hlists
  · exact hlists
  · exact (List.mem_orderedInsert _).2 (.inr hlists)

theorem kept_listenReturns {a : Addr} {path : ListenReturn} (h : Kept w)
    (hnone : w.LeavesNone (.listenReturns a path)) : Kept (w.step (.listenReturns a path)) := by
  obtain ⟨queue, hmgr⟩ := afterListen_eq w.mgr a (w.ports a)
  refine h.relisted hmgr rfl ?_ (h.nodupAccept.erase a) h.nodupConnect
  rw [step, hmgr]
  rintro (b | b) ⟨c, hc, howner⟩ hlists
  · exact (List.mem_erase_of_ne fun hba => hnone c hc (howner.trans (congrArg _ hba))).2 hlists
  · exact hlists

theorem kept_connectReturns {a : Addr} {path : ConnectReturn} (h : Kept w)
    (hnone : w.LeavesNone (.connectReturns a path)) : Kept (w.step (.connectReturns a path)) := by
  obtain ⟨queue, hmgr⟩ := afterConnect_eq w.mgr a (w.targets a).1 (w.targets a).2
    (w.connects a).localPort path.result
  refine h.relisted hmgr rfl ?_ h.nodupAccept (h.nodupConnect.erase a)
  rw [step, hmgr]
  rintro (b | b) ⟨c, hc, howner⟩ hlists
  · exact hlists
  · exact (List.mem_erase_of_ne fun hba => hnone c hc (howner.trans (congrArg _ hba))).2 hlists

theorem kept_hangUp {a : Addr} {sock : ℤ} (h : Kept w) : Kept (w.step (.hangUp a sock)) := by
  rw [step]
  split
  · exact h.of_eq rfl rfl
  · rename_i endpoint _
    exact (h.reported endpoint).of_eq rfl rfl

theorem kept_step (h : Kept w) (hcan : w.Can ev) (hnone : w.LeavesNone ev) : Kept (w.step ev) := by
  cases ev with
  | listenThread a port => exact kept_listenThread h hcan
  | listen a => exact h.of_eq rfl rfl
  | accept a sock ip port => exact kept_accept h hcan
  | hangUp a sock => exact kept_hangUp h
  | listenReturns a path => exact kept_listenReturns h hnone
  | connectThread a ip port => exact kept_connectThread h hcan
  | connect a localPort => exact kept_connect h hcan
  | loop a => exact h.of_eq rfl rfl
  | socketError a => exact (h.reported (w.connects a).endpoint).of_eq rfl rfl
  | connectReturns a path => exact kept_connectReturns h hnone
  | disconnect netId => exact h.of_eq rfl rfl

/-- A connection still held leads from its net id to its object, listed or not. -/
theorem Kept.dangling (h : Kept w) {m : NetworkManager} {c : Held} (hc : c ∈ w.held)
    (hleads : m.Leads c.netId c.owner ↔ w.mgr.Leads c.netId c.owner) (hnot : ¬ m.Lists c.owner) :
    ¬ m.NoDangling := by
  intro hno
  refine hnot (hno c.netId c.owner (hleads.2 ?_))
  exact (h.tracks.leads _ _).2 ⟨c, hc, rfl, rfl⟩

theorem dangling_listenReturns {a : Addr} {path : ListenReturn} (h : Kept w)
    (hsome : ¬ w.LeavesNone (.listenReturns a path)) :
    ¬ (w.step (.listenReturns a path)).mgr.NoDangling := by
  simp only [LeavesNone, not_forall, not_not] at hsome
  obtain ⟨c, hc, howner⟩ := hsome
  obtain ⟨queue, hmgr⟩ := afterListen_eq w.mgr a (w.ports a)
  rw [step, hmgr]
  refine h.dangling hc (leads_congr rfl rfl _) ?_
  rw [howner]
  exact h.nodupAccept.not_mem_erase

theorem dangling_connectReturns {a : Addr} {path : ConnectReturn} (h : Kept w)
    (hsome : ¬ w.LeavesNone (.connectReturns a path)) :
    ¬ (w.step (.connectReturns a path)).mgr.NoDangling := by
  simp only [LeavesNone, not_forall, not_not] at hsome
  obtain ⟨c, hc, howner⟩ := hsome
  obtain ⟨queue, hmgr⟩ := afterConnect_eq w.mgr a (w.targets a).1 (w.targets a).2
    (w.connects a).localPort path.result
  rw [step, hmgr]
  refine h.dangling hc (leads_congr rfl rfl _) ?_
  rw [howner]
  exact h.nodupConnect.not_mem_erase

theorem not_noDangling_step (h : Kept w) (hsome : ¬ w.LeavesNone ev) :
    ¬ (w.step ev).mgr.NoDangling := by
  cases ev with
  | listenReturns a path => exact dangling_listenReturns h hsome
  | connectReturns a path => exact dangling_connectReturns h hsome
  | _ => exact absurd trivial hsome

/-- In every state of a run no net id leads to an object that was deleted, exactly when each loop
returns after every connection entered under its object was taken out again. -/
theorem noDangling_iff (handlers : List Addr) (singleThread : Bool) (es : List ObjectsEvent)
    (hcan : Along step Can (start handlers singleThread) es) :
    (∀ pre, pre <+: es → (exec step (start handlers singleThread) pre).mgr.NoDangling) ↔
      Along step LeavesNone (start handlers singleThread) es :=
  along_iff_forall_exec (I := Kept) (G := fun w => w.mgr.NoDangling)
    (fun _ h => h.noDangling) (fun _ _ h hcan hnone => kept_step h hcan hnone)
    (fun _ _ h _ hsome => not_noDangling_step h hsome) (kept_start handlers singleThread) hcan

/-- A connection is made and ends, and then `Connect` returns. -/
def endsFirst : List ObjectsEvent :=
  [.connectThread 16 [49] 80, .connect 16 5000, .loop 16, .socketError 16,
    .connectReturns 16 .socketError]

theorem noDangling_endsFirst : (exec step (start [] false) endsFirst).mgr.NoDangling :=
  (noDangling_iff [] false endsFirst (by decide +kernel)).2 (by decide +kernel) endsFirst
    List.prefix_rfl

/-- A connection is made, and `Disconnect` clears `running_`. -/
def stoppedFirst : List ObjectsEvent :=
  [.connectThread 16 [49] 80, .connect 16 5000, .loop 16, .disconnect 1,
    .connectReturns 16 .stopped]

theorem dangling_stoppedFirst :
    ¬ ∀ es, Along step Can (start [] false) es →
      (exec step (start [] false) es).mgr.NoDangling := by
  intro h
  have hlists := h stoppedFirst (by decide +kernel) 1 (.connect 16) (by decide +kernel)
  revert hlists
  decide +kernel

end SocketObjects

end Elegance
