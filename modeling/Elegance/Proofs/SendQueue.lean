import Elegance.SendQueue

/-!
# Sends that nothing waits for

Whatever is in flight when a send turns out to be pending may be completed before the `nullptr` is
pushed. Then the queue is not empty and no completion of a send is to come, and so it stays until the
connection ends (`stuck_step`). Where that does not happen, nor a failure or a partial transfer at the
wrong time, what is queued has a completion to come, and is sent in order (`served_iff`).
-/

namespace Elegance

open Machine

namespace SendQueue

variable {s : SendQueue} {data : IoData} {result : SendResult}

section Fields

variable (s data result)

@[simp]
theorem wsaSend_queue : (s.wsaSend data result).queue = s.queue := by cases result <;> rfl

@[simp]
theorem wsaSend_isOpen : (s.wsaSend data result).isOpen = s.isOpen := by cases result <;> rfl

@[simp]
theorem wsaSend_accepted : (s.wsaSend data result).accepted = s.accepted := by cases result <;> rfl

@[simp]
theorem wsaSend_passed : (s.wsaSend data result).passed = s.passed ++ [data.number] := by
  cases result <;> rfl

@[simp]
theorem wsaSend_inFlight : (s.wsaSend data result).inFlight =
    if result = .failed then s.inFlight else s.inFlight ++ [data] := by
  cases result <;> rfl

@[simp]
theorem mark_queue : (s.mark result).queue = s.queue := by cases result <;> rfl

@[simp]
theorem mark_isOpen : (s.mark result).isOpen = s.isOpen := by cases result <;> rfl

@[simp]
theorem mark_accepted : (s.mark result).accepted = s.accepted := by cases result <;> rfl

@[simp]
theorem mark_passed : (s.mark result).passed = s.passed := by cases result <;> rfl

@[simp]
theorem mark_inFlight : (s.mark result).inFlight = s.inFlight := by cases result <;> rfl

end Fields

/-- The numbers of the buffers in a queue. -/
def numbers (queue : List (Option IoData)) : List ℕ :=
  queue.filterMap (Option.map IoData.number)

/-- Either there are only `nullptr`s, or the first buffer is taken with those in front of it. -/
theorem popNext_cases : ∀ queue : List (Option IoData),
    (popNext queue = (none, []) ∧ numbers queue = [] ∧ queue.dropWhile Option.isNone = []) ∨
      ∃ next rest, popNext queue = (some next, rest) ∧ numbers queue = next.number :: numbers rest ∧
        queue.dropWhile Option.isNone = some next :: rest
  | [] => .inl ⟨rfl, rfl, rfl⟩
  | none :: queue => by
    have h := popNext_cases queue
    rwa [popNext, numbers, List.filterMap_cons_none rfl, List.dropWhile_cons_of_pos rfl]
  | some data :: queue => .inr ⟨data, queue, rfl, rfl, rfl⟩

section Step

variable (index bytesTransferred : ℕ) (getQueueError : Bool)

/-- What a `Write` does: nothing, or it queues the buffer, or starts to send it. -/
theorem write_cases (s : SendQueue) (bytes : List Byte) (result : SendResult) :
    s.write bytes result = s ∨
      (s.queue ≠ [] ∧ s.write bytes result =
        { s with queue := s.queue ++ [some ⟨s.accepted, bytes⟩], accepted := s.accepted + 1 }) ∨
      (s.queue = [] ∧ s.isOpen ∧ result ≠ .failed ∧ s.write bytes result =
        { s.wsaSend ⟨s.accepted, bytes⟩ result with accepted := s.accepted + 1 }.mark result) := by
  unfold write
  split_ifs with hbad hqueue hfailed
  · exact .inl rfl
  · exact .inr (.inl ⟨hqueue, rfl⟩)
  · exact .inl rfl
  · refine .inr (.inr ⟨not_not.1 hqueue, ?_, hfailed, rfl⟩)
    simp only [not_or, Bool.not_eq_true] at hbad
    simpa using hbad.2.2

/-- What a handler does: it ends the connection, finds nothing to send, sends the next buffer, or goes
on with this one. -/
theorem complete_cases (result : SendResult) (h : s.inFlight[index]? = some data) :
    ((bytesTransferred = 0 ∨ getQueueError) ∧
        s.complete index bytesTransferred getQueueError result =
          { s with inFlight := s.inFlight.eraseIdx index }.disconnect) ∨
      (bytesTransferred ≠ 0 ∧ getQueueError = false ∧ bytesTransferred ≥ data.databuff.length ∧
        numbers s.queue = [] ∧ s.queue.dropWhile Option.isNone = [] ∧
        s.complete index bytesTransferred getQueueError result =
          { s with inFlight := s.inFlight.eraseIdx index, queue := [] }) ∨
      (bytesTransferred ≠ 0 ∧ getQueueError = false ∧ bytesTransferred ≥ data.databuff.length ∧
        ∃ next rest, numbers s.queue = next.number :: numbers rest ∧
          s.queue.dropWhile Option.isNone = some next :: rest ∧
          s.complete index bytesTransferred getQueueError result =
            ({ s with inFlight := s.inFlight.eraseIdx index, queue := rest }.wsaSend next
              result).mark result) ∨
      (bytesTransferred ≠ 0 ∧ getQueueError = false ∧ ¬ bytesTransferred ≥ data.databuff.length ∧
        s.complete index bytesTransferred getQueueError result =
          { s with inFlight := s.inFlight.eraseIdx index }.wsaSend
            { data with databuff := data.databuff.drop bytesTransferred } result) := by
  unfold complete handle
  rw [h]
  dsimp only
  split_ifs with hend hall
  · exact .inl ⟨hend, rfl⟩
  · simp only [not_or, Bool.not_eq_true] at hend
    rcases popNext_cases s.queue with ⟨hpop, hnone, hdrop⟩ | ⟨next, rest, hpop, hnumbers, hdrop⟩
    · exact .inr (.inl ⟨hend.1, hend.2, hall, hnone, hdrop, by rw [hpop]⟩)
    · exact .inr (.inr (.inl ⟨hend.1, hend.2, hall, next, rest, hnumbers, hdrop, by rw [hpop]⟩))
  · simp only [not_or, Bool.not_eq_true] at hend
    exact .inr (.inr (.inr ⟨hend.1, hend.2, hall, rfl⟩))

theorem receive_cases (s : SendQueue) :
    s.receive bytesTransferred getQueueError = s ∨
      s.receive bytesTransferred getQueueError = s.disconnect := by
  unfold receive
  split_ifs
  · exact .inr rfl
  · exact .inl rfl

end Step

section Order

/-- The buffers up to `next` were given to `WSASend`, and the others wait in the queue. -/
structure Numbered (s : SendQueue) (next : ℕ) : Prop where
  waiting : numbers s.queue = List.range' next (s.accepted - next)
  le : next ≤ s.accepted
  passed_lt : ∀ n ∈ s.passed, n < next
  flying : ∀ data ∈ s.inFlight, data.number ∈ s.passed
  all : s.isOpen → ∀ k < next, k ∈ s.passed
  none_skipped : ∀ n ∈ s.passed, ∀ k < n, k ∈ s.passed

theorem numbered_start : Numbered start 0 := by
  constructor <;> simp [start, numbers]

variable {next : ℕ}

theorem numbers_append_some (queue : List (Option IoData)) (data : IoData) :
    numbers (queue ++ [some data]) = numbers queue ++ [data.number] := by
  simp [numbers]

theorem numbers_append_none (queue : List (Option IoData)) :
    numbers (queue ++ [none]) = numbers queue := by
  simp [numbers]

/-- The next buffer is given to `WSASend`. -/
theorem Numbered.send (h : Numbered s next) {s' : SendQueue} (hopen : s.isOpen)
    (hpassed : s'.passed = s.passed ++ [next])
    (hflying : ∀ data ∈ s'.inFlight, data ∈ s.inFlight ∨ data.number = next)
    (hle : next + 1 ≤ s'.accepted)
    (hwaiting : numbers s'.queue = List.range' (next + 1) (s'.accepted - (next + 1))) :
    Numbered s' (next + 1) where
  waiting := hwaiting
  le := hle
  passed_lt n hn := by
    rw [hpassed] at hn
    rcases List.mem_append.1 hn with hn | hn
    · have := h.passed_lt n hn
      omega
    · rw [List.mem_singleton.1 hn]
      omega
  flying data hdata := by
    rw [hpassed]
    rcases hflying data hdata with hold | hnew
    · exact List.mem_append_left _ (h.flying data hold)
    · rw [hnew]
      exact List.mem_append_right _ (List.mem_singleton_self _)
  all _ k hk := by
    rw [hpassed]
    rcases Nat.lt_succ_iff_lt_or_eq.1 hk with hk | rfl
    · exact List.mem_append_left _ (h.all hopen k hk)
    · exact List.mem_append_right _ (List.mem_singleton_self _)
  none_skipped n hn k hk := by
    rw [hpassed] at hn ⊢
    rcases List.mem_append.1 hn with hn | hn
    · exact List.mem_append_left _ (h.none_skipped n hn k hk)
    · rw [List.mem_singleton.1 hn] at hk
      exact List.mem_append_left _ (h.all hopen k hk)

/-- What follows of a buffer that was given to it before. -/
theorem Numbered.resend (h : Numbered s next) {s' : SendQueue} {n : ℕ} (hn : n ∈ s.passed)
    (hpassed : s'.passed = s.passed ++ [n])
    (hflying : ∀ data ∈ s'.inFlight, data ∈ s.inFlight ∨ data.number = n)
    (hqueue : s'.queue = s.queue) (haccepted : s'.accepted = s.accepted)
    (hopen : s'.isOpen = s.isOpen) : Numbered s' next := by
  have hmem : ∀ k, k ∈ s'.passed ↔ k ∈ s.passed := by
    intro k
    rw [hpassed, List.mem_append, List.mem_singleton]
    exact ⟨fun hk => hk.elim id fun hk => hk ▸ hn, .inl⟩
  constructor
  · rw [hqueue, haccepted]
    exact h.waiting
  · rw [haccepted]
    exact h.le
  · exact fun k hk => h.passed_lt k ((hmem k).1 hk)
  · intro data hdata
    rw [hmem]
    rcases hflying data hdata with hold | hnew
    · exact h.flying data hold
    · rw [hnew]
      exact hn
  · intro ho k hk
    rw [hmem]
    exact h.all (hopen ▸ ho) k hk
  · intro m hm k hk
    rw [hmem] at hm ⊢
    exact h.none_skipped m hm k hk

theorem mem_inFlight_wsaSend {d : IoData} (hd : d ∈ (s.wsaSend data result).inFlight) :
    d ∈ s.inFlight ∨ d.number = data.number := by
  rw [wsaSend_inFlight] at hd
  split_ifs at hd
  · exact .inl hd
  · rcases List.mem_append.1 hd with hd | hd
    · exact .inl hd
    · exact .inr (List.mem_singleton.1 hd ▸ rfl)

theorem Numbered.write (h : Numbered s next) (bytes : List Byte) (result : SendResult) :
    ∃ next', Numbered (s.write bytes result) next' := by
  have hle := h.le
  rcases write_cases s bytes result with heq | ⟨hqueue, heq⟩ | ⟨hqueue, hopen, -, heq⟩
  · exact ⟨next, by rwa [heq]⟩
  · refine ⟨next, ?_⟩
    rw [heq]
    refine ⟨?_, Nat.le_succ_of_le hle, h.passed_lt, h.flying, h.all, h.none_skipped⟩
    rw [numbers_append_some, h.waiting, Nat.succ_sub hle, List.range'_concat]
    congr 2
    dsimp only
    omega
  · have hnone : s.accepted - next = 0 := by
      have hlen := congrArg List.length h.waiting
      rw [hqueue, List.length_range'] at hlen
      exact hlen.symm
    have hlast : s.accepted = next := by omega
    refine ⟨next + 1, ?_⟩
    rw [heq]
    refine h.send hopen ?_ ?_ ?_ ?_
    · simp [hlast]
    · intro d hd
      rw [mark_inFlight] at hd
      exact (mem_inFlight_wsaSend hd).imp_right fun hd => hd.trans hlast
    · simp [hlast]
    · simp [hqueue, hlast, numbers]

theorem Numbered.disconnect (h : Numbered s next) : Numbered s.disconnect s.accepted :=
  ⟨by simp [SendQueue.disconnect, numbers], le_refl _,
    fun n hn => (h.passed_lt n hn).trans_le h.le, h.flying, nofun, h.none_skipped⟩

/-- The completion that is handled is taken away. -/
theorem Numbered.taken (h : Numbered s next) (index : ℕ) :
    Numbered { s with inFlight := s.inFlight.eraseIdx index } next :=
  { h with flying := fun data hdata => h.flying data (List.mem_of_mem_eraseIdx hdata) }

theorem Numbered.complete (h : Numbered s next) {index bytesTransferred : ℕ} {getQueueError : Bool}
    (hopen : s.isOpen) (hdata : s.inFlight[index]? = some data) :
    ∃ next', Numbered (s.complete index bytesTransferred getQueueError result) next' := by
  have hle := h.le
  have hmem : data.number ∈ s.passed := h.flying data (List.mem_of_getElem? hdata)
  rcases complete_cases index bytesTransferred getQueueError result hdata with
      ⟨-, heq⟩ | ⟨-, -, -, hnone, -, heq⟩ | ⟨-, -, -, d, rest, hnumbers, -, heq⟩ | ⟨-, -, -, heq⟩
  · rw [heq]
    exact ⟨s.accepted, (h.taken index).disconnect⟩
  · have hwaiting := h.waiting
    rw [hnone] at hwaiting
    rw [heq]
    exact ⟨next, { h.taken index with waiting := hwaiting }⟩
  · have htaken := h.taken index
    have hwaiting := h.waiting
    have hlt : next < s.accepted := by
      have hlen := congrArg List.length hwaiting
      rw [hnumbers, List.length_cons, List.length_range'] at hlen
      omega
    rw [hnumbers, show s.accepted - next = s.accepted - (next + 1) + 1 by omega, List.range'_succ,
      List.cons.injEq] at hwaiting
    refine ⟨next + 1, ?_⟩
    rw [heq]
    refine htaken.send hopen ?_ ?_ ?_ ?_
    · simp [hwaiting.1]
    · intro d' hd'
      rw [mark_inFlight] at hd'
      exact (mem_inFlight_wsaSend hd').imp_right fun hd => hd.trans hwaiting.1
    · simpa using hlt
    · simpa using hwaiting.2
  · refine ⟨next, ?_⟩
    rw [heq]
    refine (h.taken index).resend hmem (by simp) ?_ (by simp) (by simp) (by simp)
    intro d hd
    have hsent := mem_inFlight_wsaSend hd
    exact hsent

theorem numbered_step {e : SendEvent} (h : Numbered s next) (hcan : s.Can e) :
    ∃ next', Numbered (s.step e) next' := by
  cases e with
  | write bytes result => exact h.write bytes result
  | pushNull =>
    refine ⟨next, ?_, h.le, h.passed_lt, h.flying, h.all, h.none_skipped⟩
    rw [step, pushNull, numbers_append_none]
    exact h.waiting
  | complete index bytesTransferred getQueueError result =>
    obtain ⟨hopen, hindex⟩ := hcan
    exact h.complete hopen (List.getElem?_eq_getElem hindex)
  | receive bytesTransferred getQueueError =>
    rw [step]
    rcases receive_cases bytesTransferred getQueueError s with heq | heq <;> rw [heq]
    · exact ⟨next, h⟩
    · exact ⟨s.accepted, h.disconnect⟩

end Order

section Served

/-- Something is queued, and no completion is to come. -/
def Stuck (s : SendQueue) : Prop := s.queue ≠ [] ∧ s.inFlight = []

/-- A queue that holds something stays so while the connection is open, as only the completion of a
send is the occasion to send. -/
theorem stuck_step {e : SendEvent} (h : s.Stuck) (hcan : s.Can e) :
    (s.step e).isOpen = false ∨ (s.step e).Stuck := by
  obtain ⟨hqueue, hflight⟩ := h
  cases e with
  | write bytes result =>
    rcases write_cases s bytes result with heq | ⟨-, heq⟩ | ⟨hnil, -⟩
    · rw [step, heq]
      exact .inr ⟨hqueue, hflight⟩
    · rw [step, heq]
      exact .inr ⟨by simp, hflight⟩
    · exact absurd hnil hqueue
  | pushNull => exact .inr ⟨by simp [step, pushNull], hflight⟩
  | complete index bytesTransferred getQueueError result =>
    have hindex := hcan.2
    rw [hflight] at hindex
    exact absurd hindex (Nat.not_lt_zero index)
  | receive bytesTransferred getQueueError =>
    rw [step]
    rcases receive_cases bytesTransferred getQueueError s with heq | heq <;> rw [heq]
    · exact .inr ⟨hqueue, hflight⟩
    · exact .inl rfl

/-- A connection that has ended is not opened again. -/
theorem closed_step {e : SendEvent} (h : s.isOpen = false) (hcan : s.Can e) :
    (s.step e).isOpen = false := by
  cases e with
  | write bytes result => simp [step, write, h]
  | pushNull => exact h
  | complete index bytesTransferred getQueueError result => exact absurd hcan.1 (by simp [h])
  | receive bytesTransferred getQueueError => exact absurd hcan (by simp [Can, h])

/-- Where a send is started, or fails with nothing left in the queue or another in flight. -/
theorem not_stuck_of_send {s' : SendQueue} {flying : List IoData}
    (hflight : s'.inFlight = if result = .failed then flying else flying ++ [data])
    (hleft : result = .failed → s'.queue = [] ∨ flying ≠ []) : ¬ s'.Stuck := by
  rintro ⟨hqueue, hnone⟩
  rw [hflight] at hnone
  split_ifs at hnone with hfailed
  · rcases hleft hfailed with hnil | hne
    · exact hqueue hnil
    · exact hne hnone
  · simp at hnone

/-- A careful step leaves a completion to come wherever something is queued. -/
theorem waited_step {e : SendEvent} (h : ¬ s.Stuck) (hcan : s.Can e) (hcareful : s.Careful e) :
    ¬ (s.step e).Stuck := by
  cases e with
  | write bytes result =>
    rcases write_cases s bytes result with heq | ⟨hqueue, heq⟩ | ⟨-, -, hfailed, heq⟩
    · rwa [step, heq]
    · rw [step, heq]
      exact fun hstuck => h ⟨hqueue, hstuck.2⟩
    · rw [step, heq]
      exact not_stuck_of_send ((mark_inFlight _ _).trans (wsaSend_inFlight _ _ _)) fun hfailed' => absurd hfailed' hfailed
  | pushNull => exact fun hstuck => hcareful hstuck.2
  | complete index bytesTransferred getQueueError result =>
    have hdata := List.getElem?_eq_getElem hcan.2
    have hcareful := hcareful _ hdata
    rw [step]
    rcases complete_cases index bytesTransferred getQueueError result hdata with
        ⟨-, heq⟩ | ⟨-, -, -, -, -, heq⟩ | ⟨hmoved, hok, hall, d, rest, -, hdrop, heq⟩ |
        ⟨hmoved, hok, hall, heq⟩
    · rw [heq]
      exact fun hstuck => hstuck.1 rfl
    · rw [heq]
      exact fun hstuck => hstuck.1 rfl
    · have hleft := hcareful hmoved hok
      rw [if_pos hall, hdrop] at hleft
      rw [heq]
      refine not_stuck_of_send ((mark_inFlight _ _).trans (wsaSend_inFlight _ _ _)) fun hfailed => ?_
      simpa using hleft hfailed
    · have hleft := hcareful hmoved hok
      rw [if_neg hall] at hleft
      rw [heq]
      refine not_stuck_of_send (wsaSend_inFlight _ _ _) fun hfailed => ?_
      simpa using hleft.2 hfailed
  | receive bytesTransferred getQueueError =>
    rw [step]
    rcases receive_cases bytesTransferred getQueueError s with heq | heq <;> rw [heq]
    · exact h
    · exact fun hstuck => hstuck.1 rfl

end Served

section Sorted

variable {next : ℕ}

theorem pairwise_append_singleton {passed : List ℕ} {n : ℕ} :
    (passed ++ [n]).Pairwise (· ≤ ·) ↔ passed.Pairwise (· ≤ ·) ∧ ∀ k ∈ passed, k ≤ n := by
  simp [List.pairwise_append]

/-- What was given to `WSASend` stays so. -/
theorem passed_isPrefix (s : SendQueue) (e : SendEvent) : s.passed <+: (s.step e).passed := by
  cases e with
  | write bytes result =>
    rcases write_cases s bytes result with heq | ⟨-, heq⟩ | ⟨-, -, -, heq⟩ <;> rw [step, heq]
    simp
  | pushNull => exact List.prefix_rfl
  | complete index bytesTransferred getQueueError result =>
    rcases hdata : s.inFlight[index]? with _ | data
    · rw [step, complete, hdata]
    · rcases complete_cases index bytesTransferred getQueueError result hdata with
        ⟨-, heq⟩ | ⟨-, -, -, -, -, heq⟩ | ⟨-, -, -, d, rest, -, -, heq⟩ | ⟨-, -, -, heq⟩
      · rw [step, heq]
        exact List.prefix_rfl
      · rw [step, heq]
      · rw [step, heq]
        simp
      · rw [step, heq]
        simp
  | receive bytesTransferred getQueueError =>
    rcases receive_cases bytesTransferred getQueueError s with heq | heq <;> rw [step, heq]
    exact List.prefix_rfl

theorem sorted_step {e : SendEvent} (h : Numbered s next) (hsorted : s.passed.Pairwise (· ≤ ·))
    (hcan : s.Can e) (hcareful : s.Careful e) : (s.step e).passed.Pairwise (· ≤ ·) := by
  cases e with
  | write bytes result =>
    rcases write_cases s bytes result with heq | ⟨-, heq⟩ | ⟨-, -, -, heq⟩
    · rwa [step, heq]
    · rwa [step, heq]
    · rw [step, heq, mark_passed]
      dsimp only
      rw [wsaSend_passed, pairwise_append_singleton]
      exact ⟨hsorted, fun k hk => ((h.passed_lt k hk).trans_le h.le).le⟩
  | pushNull => exact hsorted
  | complete index bytesTransferred getQueueError result =>
    have hdata := List.getElem?_eq_getElem hcan.2
    have hcareful := hcareful _ hdata
    rw [step]
    rcases complete_cases index bytesTransferred getQueueError result hdata with
        ⟨-, heq⟩ | ⟨-, -, -, -, -, heq⟩ | ⟨-, -, -, d, rest, hnumbers, -, heq⟩ |
        ⟨hmoved, hok, hall, heq⟩
    · rwa [heq]
    · rwa [heq]
    · have hwaiting := h.waiting
      rw [hnumbers] at hwaiting
      have hfirst : d.number = next := by
        rcases hrest : s.accepted - next with _ | k
        · rw [hrest] at hwaiting
          cases hwaiting
        · rw [hrest, List.range'_succ] at hwaiting
          exact (List.cons.inj hwaiting).1
      rw [heq, mark_passed, wsaSend_passed, pairwise_append_singleton, hfirst]
      exact ⟨hsorted, fun k hk => (h.passed_lt k hk).le⟩
    · have hlast := hcareful hmoved hok
      rw [if_neg hall] at hlast
      rw [heq, wsaSend_passed, pairwise_append_singleton]
      exact ⟨hsorted, hlast.1⟩
  | receive bytesTransferred getQueueError =>
    rcases receive_cases bytesTransferred getQueueError s with heq | heq <;> rwa [step, heq]

end Sorted

/-- The connection has ended, something queued is never sent, or something was sent out of order. -/
def Broken (s : SendQueue) : Prop :=
  s.isOpen = false ∨ s.Stuck ∨ ¬ s.passed.Pairwise (· ≤ ·)

theorem broken_step {e : SendEvent} (h : s.Broken) (hcan : s.Can e) : (s.step e).Broken := by
  rcases h with hclosed | hstuck | hnot
  · exact .inl (closed_step hclosed hcan)
  · exact (stuck_step hstuck hcan).imp_right .inl
  · exact .inr (.inr fun hsorted => hnot (hsorted.sublist (passed_isPrefix s e).sublist))

/-- A step that is not careful leaves the queue stuck, or the order broken. -/
theorem broken_of_not_careful {e : SendEvent} (hnot : ¬ s.Careful e) : (s.step e).Broken := by
  cases e with
  | write bytes result => exact absurd trivial hnot
  | receive bytesTransferred getQueueError => exact absurd trivial hnot
  | pushNull => exact .inr (.inl ⟨by simp [step, pushNull], not_not.1 hnot⟩)
  | complete index bytesTransferred getQueueError result =>
    by_contra hgood
    obtain ⟨hwaited, hsorted⟩ := not_or.1 (not_or.1 hgood).2
    refine hnot fun data hdata hmoved hok => ?_
    rw [step] at hwaited hsorted
    rcases complete_cases index bytesTransferred getQueueError result hdata with
        ⟨hend, -⟩ | ⟨-, -, hall, -, hdrop, -⟩ | ⟨-, -, hall, d, rest, -, hdrop, heq⟩ |
        ⟨-, -, hall, heq⟩
    · rw [hok] at hend
      exact absurd hend (by simp [hmoved])
    · rw [if_pos hall, hdrop]
      exact fun _ => .inl (Nat.zero_le 1)
    · rw [if_pos hall, hdrop]
      rintro rfl
      rw [heq] at hwaited
      rw [or_iff_not_imp_left]
      rintro hmore hflight
      refine hwaited ⟨?_, hflight⟩
      rintro rfl
      exact hmore (Nat.le_refl 1)
    · rw [if_neg hall]
      rw [heq] at hwaited hsorted
      rw [wsaSend_passed, pairwise_append_singleton, not_not] at hsorted
      refine ⟨hsorted.2, ?_⟩
      rintro rfl
      rw [or_iff_not_imp_left]
      exact fun hqueue hflight => hwaited ⟨hqueue, hflight⟩

/-- What the steps keep. -/
structure Inv (s : SendQueue) : Prop where
  waited : ¬ s.Stuck
  sorted : s.passed.Pairwise (· ≤ ·)
  numbered : ∃ next, Numbered s next

theorem inv_start : Inv start :=
  ⟨fun h => h.1 rfl, .nil, 0, numbered_start⟩

theorem Inv.good (h : Inv s) : s.Served ∧ s.InOrder := by
  obtain ⟨hwaited, hsorted, next, hnumbered⟩ := h
  refine ⟨fun _ hqueue hflight => hwaited ⟨hqueue, hflight⟩, hsorted, hnumbered.none_skipped⟩

theorem inv_step {e : SendEvent} (h : Inv s) (hcan : s.Can e) (hcareful : s.Careful e) :
    Inv (s.step e) := by
  obtain ⟨hwaited, hsorted, next, hnumbered⟩ := h
  exact ⟨waited_step hwaited hcan hcareful, sorted_step hnumbered hsorted hcan hcareful,
    numbered_step hnumbered hcan⟩

/-- Where every step is careful, nothing queued is left behind and the order is kept, after every
step; and where this holds after a run that leaves the connection open and no call in the middle,
every step was. -/
theorem served_iff (es : List SendEvent) (hcan : Along step Can start es) :
    (Along step Careful start es →
      ∀ pre, pre <+: es → (exec step start pre).Served ∧ (exec step start pre).InOrder) ∧
    ((exec step start es).isOpen → (exec step start es).marking = 0 →
      (exec step start es).Served ∧ (exec step start es).InOrder →
      Along step Careful start es) := by
  constructor
  · rintro hcareful pre ⟨post, rfl⟩
    have hboth := (along_and start (pre ++ post)).2 ⟨hcan, hcareful⟩
    have hpre := ((along_append start pre post).1 hboth).1
    exact (invariant (fun s e h hs => inv_step h hs.1 hs.2) inv_start hpre).good
  · rintro hopen hidle ⟨hserved, horder⟩
    have hrun := along_or_broken (fun s e h hq hp => inv_step h hq hp)
      (fun s e _ _ hnot => (broken_of_not_careful hnot : (s.step e).Broken))
      (fun s e h hq => broken_step h hq) inv_start hcan
    rcases hrun with ⟨hcareful, -⟩ | ⟨-, hclosed | hstuck | hnot⟩
    · exact hcareful
    · exact absurd hopen (by simp [hclosed])
    · exact absurd hstuck.2 (hserved hidle hstuck.1)
    · exact absurd horder.sorted hnot

/-- Two buffers wait for a pending send, and one finds the queue empty again. -/
def fourWrites : List SendEvent :=
  [.write [1] .pending, .pushNull, .write [2] .sent, .write [3] .sent,
    .complete 0 1 false .pending, .pushNull, .complete 0 1 false .sent, .complete 0 1 false .sent,
    .write [4] .sent]

theorem served_fourWrites : (exec step start fourWrites).passed = [0, 1, 2, 3] ∧
    ∀ pre, pre <+: fourWrites → (exec step start pre).Served ∧ (exec step start pre).InOrder :=
  ⟨by decide +kernel, (served_iff fourWrites (by decide +kernel)).1 (by decide +kernel)⟩

/-- The send is completed before its `nullptr` is pushed, and the next buffer waits for nothing. -/
def lateNull : List SendEvent :=
  [.write [1] .pending, .complete 0 1 false .sent, .pushNull, .write [2] .sent]

theorem not_served_lateNull :
    Along step Can start lateNull ∧ ¬ (exec step start lateNull).Served := by
  refine ⟨⟨trivial, ⟨rfl, by decide⟩, ?_, trivial, trivial⟩, fun h => ?_⟩
  · show 0 < ((start.step (.write [1] .pending)).step (.complete 0 1 false .sent)).marking
    decide
  · exact h rfl (by decide) rfl

end SendQueue

end Elegance
