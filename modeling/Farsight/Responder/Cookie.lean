import Farsight.Responder.Authentic
import Farsight.Responder.WrongCookie
import Mathlib.Algebra.Group.Units.Basic
import Mathlib.Data.BitVec
import Mathlib.Data.Nat.ModEq

/-!
# Cookies separate targets

A host that has answered on one port knows one cookie. Whether that cookie could be passed off as
the one of another port, or of another host, is a question about the hash alone: its multiplier is
odd, so that each round can be undone, and the 32 bits that are left of the 64 depend on nothing
above them.

* `cookie_eq` — the cookie, computed on words of 32 bits;
* `nativeBits_injective` — the octets of an address can be read back;
* `cookie_inj_port`, `cookie_inj_ip`, `cookie_inj_seed` — what two equal cookies have in common;
* `Responder.cookie_separates` — what the check of `process_syn_ack` tells apart.
-/

namespace Farsight

/-! ### The hash on words of 32 bits -/

/-- The lower half of the multiplier. -/
def cookieFactor : BitVec 32 :=
  cookieMultiplier.setWidth 32

/-- Multiplication by the lower half can be undone. -/
theorem isUnit_cookieFactor : IsUnit cookieFactor :=
  IsUnit.of_mul_eq_one 0x5daaed0d#32 (by decide)

/-- Sums and products of the lower halves are the lower halves of the sums and products. -/
theorem cookie_eq (ip : Ipv4Addr) (port : BitVec 16) (seed : BitVec 64) :
    cookie ip port seed =
      ((nativeBits ip * cookieFactor + port.setWidth 32) * cookieFactor + seed.setWidth 32) *
        cookieFactor := by
  have hle : 32 ≤ 64 := by decide
  unfold cookie cookieFactor
  simp only [BitVec.setWidth_mul _ _ hle, BitVec.setWidth_add _ _ hle,
    BitVec.setWidth_setWidth_of_le _ hle, BitVec.setWidth_eq]

/-- Bit `i` of the octets in memory order is bit `i % 8` of octet `i / 8`, counted from the other
end. -/
theorem getLsbD_nativeBits (ip : Ipv4Addr) {i : ℕ} (hi : i < 32) :
    (nativeBits ip).getLsbD i = ip.getLsbD (8 * (3 - i / 8) + i % 8) := by
  unfold nativeBits
  simp only [BitVec.getLsbD_append, BitVec.getLsbD_extractLsb']
  split_ifs with h₀ h₁ h₂
  · have hbyte : 8 * (3 - i / 8) + i % 8 = 24 + i := by omega
    simp [h₀, hbyte]
  · have hbyte : 8 * (3 - i / 8) + i % 8 = 16 + (i - 8) := by omega
    simp [h₁, hbyte]
  · have hbyte : 8 * (3 - i / 8) + i % 8 = 8 + (i - 8 - 8) := by omega
    simp [h₂, hbyte]
  · have hbyte : 8 * (3 - i / 8) + i % 8 = i - 8 - 8 - 8 := by omega
    simp [show i - 8 - 8 - 8 < 8 by omega, hbyte]

theorem nativeBits_injective : Function.Injective nativeBits := by
  intro ip ip' heq
  apply BitVec.eq_of_getLsbD_eq
  intro i hi
  -- the octets are turned around twice
  have hturn : 8 * (3 - (8 * (3 - i / 8) + i % 8) / 8) + (8 * (3 - i / 8) + i % 8) % 8 = i := by
    omega
  have hbit := congrArg (fun bits => bits.getLsbD (8 * (3 - i / 8) + i % 8)) heq
  simp only [getLsbD_nativeBits _ (show 8 * (3 - i / 8) + i % 8 < 32 by omega), hturn] at hbit
  exact hbit

theorem setWidth_port_inj {port port' : BitVec 16} :
    port.setWidth 32 = port'.setWidth 32 ↔ port = port' := by
  refine ⟨fun h => ?_, fun h => h ▸ rfl⟩
  have hback := congrArg (BitVec.setWidth 16) h
  rwa [BitVec.setWidth_setWidth_of_le _ (by decide), BitVec.setWidth_setWidth_of_le _ (by decide),
    BitVec.setWidth_eq, BitVec.setWidth_eq] at hback

theorem setWidth_seed_inj {seed seed' : BitVec 64} :
    seed.setWidth 32 = seed'.setWidth 32 ↔ seed.toNat ≡ seed'.toNat [MOD 2 ^ 32] := by
  rw [← BitVec.toNat_inj, BitVec.toNat_setWidth, BitVec.toNat_setWidth]
  rfl

/-! ### What two equal cookies have in common -/

theorem cookie_inj_port (ip : Ipv4Addr) {port port' : BitVec 16} (seed : BitVec 64) :
    cookie ip port seed = cookie ip port' seed ↔ port = port' := by
  rw [cookie_eq, cookie_eq, isUnit_cookieFactor.mul_left_inj, add_left_inj,
    isUnit_cookieFactor.mul_left_inj, add_right_inj, setWidth_port_inj]

theorem cookie_inj_ip {ip ip' : Ipv4Addr} (port : BitVec 16) (seed : BitVec 64) :
    cookie ip port seed = cookie ip' port seed ↔ ip = ip' := by
  rw [cookie_eq, cookie_eq, isUnit_cookieFactor.mul_left_inj, add_left_inj,
    isUnit_cookieFactor.mul_left_inj, add_left_inj, isUnit_cookieFactor.mul_left_inj,
    nativeBits_injective.eq_iff]

/-- Only the low half of the seed is used. -/
theorem cookie_inj_seed (ip : Ipv4Addr) (port : BitVec 16) {seed seed' : BitVec 64} :
    cookie ip port seed = cookie ip port seed' ↔ seed.toNat ≡ seed'.toNat [MOD 2 ^ 32] := by
  rw [cookie_eq, cookie_eq, isUnit_cookieFactor.mul_left_inj, add_right_inj, setWidth_seed_inj]

/-! ### What the check tells apart -/

/-- The packet as if it came from another port of its host. -/
def Packet.fromPort (p : Packet) (port : BitVec 16) : Packet :=
  { p with hdr := { p.hdr with sourcePort := port } }

theorem Packet.Authentic.wrongCookie_fromPort {A B : Type} {env : ResponderEnv A B} {p : Packet}
    (h : p.Authentic env p.key) {port : BitVec 16} (hport : port ≠ p.hdr.sourcePort) :
    (p.fromPort port).WrongCookie env.seed := by
  obtain ⟨hkind, -, hack⟩ := h
  refine ⟨hkind, fun hvalid => hport ?_⟩
  have hcookies : cookie p.ip port env.seed = cookie p.ip p.hdr.sourcePort env.seed :=
    add_right_cancel (hvalid.symm.trans hack)
  exact (cookie_inj_port p.ip env.seed).mp hcookies

namespace Responder

/-- A packet with a wrong cookie creates no connection and records no result. -/
theorem toTracker_receive_wrongCookie {A B : Type} {env : ResponderEnv A B} {arrival : Arrival}
    (h : arrival.packet.WrongCookie env.seed) (w : Responder A B) :
    (receive env arrival w).2.toTracker = w.toTracker :=
  receive_not_creates h.1 fun hcreates => h.2 hcreates.1.2.1

/-- **Cookies separate targets.** Under every seed the cookies of the ports of one host are all
different, and so are those of one port of all hosts. A `SYN+ACK` that is valid for one port of a
host is therefore not valid for any other, and is not taken for an answer there. Two seeds give the
same cookie for a target if and only if they agree modulo `2 ^ 32`. -/
theorem cookie_separates {A B : Type} :
    (∀ (seed : BitVec 64) (ip : Ipv4Addr), Function.Injective fun port => cookie ip port seed) ∧
    (∀ (seed : BitVec 64) (port : BitVec 16),
      Function.Injective fun ip => cookie ip port seed) ∧
    (∀ (env : ResponderEnv A B) (p : Packet) (port : BitVec 16),
      p.Authentic env p.key → port ≠ p.hdr.sourcePort →
      (p.fromPort port).WrongCookie env.seed ∧
        ∀ (now : ℕ) (wakes : List Wake) (w : Responder A B),
          (receive env ⟨p.fromPort port, now, wakes⟩ w).2.toTracker = w.toTracker) ∧
    ∀ (ip : Ipv4Addr) (port : BitVec 16) (seed seed' : BitVec 64),
      cookie ip port seed = cookie ip port seed' ↔ seed.toNat ≡ seed'.toNat [MOD 2 ^ 32] := by
  refine ⟨fun seed ip port port' h => (cookie_inj_port ip seed).mp h,
    fun seed port ip ip' h => (cookie_inj_ip port seed).mp h, fun env p port hp hport => ?_,
    fun ip port seed seed' => cookie_inj_seed ip port⟩
  have hwrong := hp.wrongCookie_fromPort hport
  exact ⟨hwrong, fun now wakes w => toTracker_receive_wrongCookie hwrong w⟩

/-- The answer of port 25565 of host 1, sent from port 80. -/
theorem cookie_separates_sample :
    let p := Packet.sample 1 (.syn ||| .ack) 0 1 []
    p.Authentic ResponderEnv.sample p.key ∧
      (p.fromPort 80).WrongCookie ResponderEnv.sample.seed := by
  have hp : (Packet.sample 1 (.syn ||| .ack) 0 1 []).Authentic ResponderEnv.sample
      (Packet.sample 1 (.syn ||| .ack) 0 1 []).key := by
    decide
  exact ⟨hp, (cookie_separates.2.2.1 ResponderEnv.sample _ 80 hp (by decide)).1⟩

end Responder

end Farsight
