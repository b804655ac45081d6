import Elegance.Signal

/-!
# `SIGINT` is never handled

`UpdateSignal` sets `SIGINT` back to `SIG_DFL` and installs the handler for the signal whose number
is the status, which is `SIGHUP` (`disposition_updateSignal`). So the dispositions are right as long
as no registered object wants `SIGINT` (`right_step_iff`), and no object ever gets one
(`received_exec`).
-/

namespace Elegance

open Machine

namespace SignalManager

variable {m : SignalManager} {before : ℤ → Disposition}

section UpdateSignal

variable (m)

theorem updateSignal_eq : m.updateSignal =
    if m.Wanted then (m.signal sigInt .dfl).signal sigHup .handle else m.signal sigInt .dfl := by
  have hstatus : m.signalStatusList = [decide m.Wanted] := by
    have hiff : (∃ object ∈ m.signalSet, m.checkType object .interrupt) ↔ m.Wanted := by
      simp [checkType, Wanted]
    exact congrArg (fun status => [status]) (decide_eq_decide.2 hiff)
  rw [updateSignal, hstatus, realSignalValueList]
  split_ifs with h <;> simp [h, sigHup]

@[simp]
theorem signalSet_updateSignal : m.updateSignal.signalSet = m.signalSet := by
  rw [updateSignal_eq]
  split_ifs <;> rfl

@[simp]
theorem typeSet_updateSignal : m.updateSignal.typeSet = m.typeSet := by
  rw [updateSignal_eq]
  split_ifs <;> rfl

@[simp]
theorem wanted_updateSignal : m.updateSignal.Wanted ↔ m.Wanted := by
  simp [Wanted]

theorem disposition_updateSignal (sig : ℤ) : m.updateSignal.disposition sig =
    if sig = sigInt then .dfl
    else if sig = sigHup ∧ m.Wanted then .handle else m.disposition sig := by
  have hne : sigInt ≠ sigHup := by decide
  rw [updateSignal_eq]
  by_cases h : m.Wanted <;> by_cases hint : sig = sigInt <;> by_cases hhup : sig = sigHup <;>
    simp_all [signal]

end UpdateSignal

theorem disposition_sigInt_step (m : SignalManager) (c : Call) :
    (m.step c).disposition sigInt = .dfl := by
  have h : ∀ m' : SignalManager, m'.updateSignal.disposition sigInt = .dfl := fun m' => by
    rw [disposition_updateSignal, if_pos rfl]
  cases c <;> exact h _

/-- No registered object wants `SIGINT`, and the other signals are as they were. -/
structure Calm (before : ℤ → Disposition) (m : SignalManager) : Prop where
  not_wanted : ¬ m.Wanted
  others : ∀ sig, sig ≠ sigInt → m.disposition sig = before sig

theorem Calm.updateSignal (h : Calm before m) : Calm before m.updateSignal where
  not_wanted := by
    rw [wanted_updateSignal]
    exact h.not_wanted
  others sig hsig := by
    have hhup : ¬ (sig = sigHup ∧ m.Wanted) := fun hw => h.not_wanted hw.2
    rw [disposition_updateSignal, if_neg hsig, if_neg hhup, h.others sig hsig]

/-- A change of one object's types is calm where it leaves out `INTERRUPT`, or the object is not
registered. -/
theorem Calm.setTypes (h : Calm before m) (object : Addr) (types : Finset SignalType)
    (htypes : object ∈ m.signalSet → .interrupt ∉ types) :
    Calm before { m with typeSet := Function.update m.typeSet object types } where
  not_wanted := by
    rintro ⟨other, hmem, htype⟩
    dsimp only at hmem htype
    by_cases heq : other = object
    · subst heq
      rw [Function.update_self] at htype
      exact htypes hmem htype
    · rw [Function.update_of_ne heq] at htype
      exact h.not_wanted ⟨other, hmem, htype⟩
  others := h.others

theorem Calm.not_mem (h : Calm before m) {object : Addr} (hmem : object ∈ m.signalSet) :
    .interrupt ∉ m.typeSet object :=
  fun htype => h.not_wanted ⟨object, hmem, htype⟩

theorem Calm.addType (h : Calm before m) {object : Addr} {type : SignalType}
    (htype : object ∈ m.signalSet → type ≠ .interrupt) : Calm before (m.addType object type) := by
  refine (h.setTypes object _ fun hmem => ?_).updateSignal
  rw [Finset.mem_insert, not_or]
  exact ⟨(htype hmem).symm, h.not_mem hmem⟩

theorem Calm.register (h : Calm before m) {object : Addr} (hobject : .interrupt ∉ m.typeSet object) :
    Calm before (m.register object) := by
  refine Calm.updateSignal ⟨?_, h.others⟩
  rintro ⟨other, hmem, htype⟩
  rcases Finset.mem_insert.1 hmem with rfl | hmem
  · exact hobject htype
  · exact h.not_wanted ⟨other, hmem, htype⟩

theorem typeSet_addType_self (m : SignalManager) (object : Addr) (type : SignalType) :
    (m.addType object type).typeSet object = insert type (m.typeSet object) := by
  simp [addType]

theorem Calm.step (h : Calm before m) {c : Call} (hq : m.Quiet c) : Calm before (m.step c) := by
  cases c with
  | construct object type =>
    have hempty := h.setTypes object ∅ fun _ => by simp
    refine (hempty.addType fun _ => hq).register ?_
    rw [typeSet_addType_self, Finset.mem_insert, not_or]
    exact ⟨Ne.symm hq, by simp⟩
  | destroy object =>
    refine Calm.updateSignal ⟨?_, h.others⟩
    rintro ⟨other, hmem, htype⟩
    exact h.not_wanted ⟨other, Finset.mem_of_mem_erase hmem, htype⟩
  | addType object type => exact h.addType hq
  | removeType object type =>
    refine (h.setTypes object _ fun hmem => ?_).updateSignal
    exact fun htype => h.not_mem hmem (Finset.mem_of_mem_erase htype)

/-- A call that is not quiet leaves an object that wants `SIGINT`. -/
theorem wanted_step {c : Call} (h : ¬ m.Quiet c) : (m.step c).Wanted := by
  cases c with
  | construct object type =>
    obtain rfl : type = .interrupt := not_not.1 h
    refine (wanted_updateSignal _).2 ⟨object, Finset.mem_insert_self _ _, ?_⟩
    rw [typeSet_addType_self]
    exact Finset.mem_insert_self _ _
  | addType object type =>
    obtain ⟨hmem, htype⟩ := Classical.not_imp.1 h
    obtain rfl : type = .interrupt := not_not.1 htype
    refine (wanted_updateSignal _).2 ⟨object, hmem, ?_⟩
    simp
  | destroy object => exact absurd trivial h
  | removeType object type => exact absurd trivial h

theorem right_step_iff (h : Calm before m) (c : Call) : Right before (m.step c) ↔ m.Quiet c := by
  constructor
  · intro hright
    by_contra hq
    have hhandle := hright.1
    rw [if_pos (wanted_step hq), disposition_sigInt_step] at hhandle
    cases hhandle
  · intro hq
    have hcalm := h.step hq
    refine ⟨?_, hcalm.others⟩
    rw [if_neg hcalm.not_wanted, disposition_sigInt_step]

/-- Whatever objects there are, `SIGINT` reaches none of them. -/
theorem received_exec (m : SignalManager) (c : Call) : ∀ cs : List Call,
    (exec step m (c :: cs)).received sigInt = ∅
  | [] => by rw [exec_cons, exec_nil, received, disposition_sigInt_step]; rfl
  | c' :: cs => received_exec (m.step c) c' cs

/-- The process before the first call. -/
def start (before : ℤ → Disposition) : SignalManager where
  disposition := before

/-- After each call the dispositions are right exactly as long as no registered object is given the
type `INTERRUPT`. -/
theorem right_iff_quiet (before : ℤ → Disposition) (cs : List Call) :
    Along step (fun m c => Right before (m.step c)) (start before) cs ↔
      Along step Quiet (start before) cs :=
  along_congr (fun _ _ h hq => Calm.step h hq) (fun _ c h => right_step_iff h c)
    ⟨by simp [start, Wanted], fun _ _ => rfl⟩

/-- An object for `SIGINT` gets the process a handler for `SIGHUP`. -/
theorem not_right_interrupt :
    ¬ Right (fun _ => .dfl) ((start fun _ => .dfl).step (.construct 1 .interrupt)) :=
  fun h => absurd (h.2 sigHup (by decide)) (by decide)

end SignalManager

end Elegance
