import Elegance.FlexibleBuffer
import Elegance.Lib.StdMap

/-!
# `Endpoint`

`operator <` compares the lengths of the address strings and the two ports, never the characters:
endpoints that agree in these three numbers are one key to a `std::map<Endpoint, _>`
(`equiv_endpoint_iff`).
-/

namespace Elegance

open StrictWeakOrd

abbrev Port := UInt16

/-- `std::string`, as its bytes. -/
abbrev IPAddr := List Byte

structure Endpoint where
  remoteIpAddr : IPAddr := []
  remotePort : Port := 0
  localPort : Port := 0
  deriving DecidableEq, Repr

/-- `operator <`. -/
def Endpoint.less (a b : Endpoint) : Bool :=
  if a.remoteIpAddr.length < b.remoteIpAddr.length then true
  else if b.remoteIpAddr.length < a.remoteIpAddr.length then false
  else if a.remotePort < b.remotePort then true
  else if b.remotePort < a.remotePort then false
  else a.localPort < b.localPort

theorem Endpoint.less_iff (a b : Endpoint) : a.less b = true ↔
    a.remoteIpAddr.length < b.remoteIpAddr.length ∨
    a.remoteIpAddr.length = b.remoteIpAddr.length ∧
      (a.remotePort.toNat < b.remotePort.toNat ∨
      a.remotePort.toNat = b.remotePort.toNat ∧ a.localPort.toNat < b.localPort.toNat) := by
  unfold Endpoint.less
  simp only [UInt16.lt_iff_toNat_lt]
  split_ifs <;> simp only [decide_eq_true_eq, true_iff, false_iff] <;> omega

theorem Endpoint.not_less_iff (a b : Endpoint) : a.less b = false ↔
    ¬ (a.remoteIpAddr.length < b.remoteIpAddr.length ∨
    a.remoteIpAddr.length = b.remoteIpAddr.length ∧
      (a.remotePort.toNat < b.remotePort.toNat ∨
      a.remotePort.toNat = b.remotePort.toNat ∧ a.localPort.toNat < b.localPort.toNat)) := by
  rw [← Endpoint.less_iff, Bool.not_eq_true]

instance : StrictWeakOrd Endpoint where
  less := Endpoint.less
  irrefl a := by
    rw [Endpoint.not_less_iff]
    omega
  trans a b c h₁ h₂ := by
    rw [Endpoint.less_iff] at *
    omega
  incomp_trans a b c h₁ h₂ h₃ h₄ := by
    simp only [Endpoint.not_less_iff] at *
    omega

theorem equiv_endpoint_iff (a b : Endpoint) : equiv a b = true ↔
    a.remoteIpAddr.length = b.remoteIpAddr.length ∧ a.remotePort = b.remotePort ∧
      a.localPort = b.localPort := by
  have ha : a.less b = false ↔ _ := a.not_less_iff b
  have hb : b.less a = false ↔ _ := b.not_less_iff a
  rw [equiv_iff, show less a b = a.less b from rfl, show less b a = b.less a from rfl, ha, hb,
    ← UInt16.toNat_inj, ← UInt16.toNat_inj]
  omega

end Elegance
