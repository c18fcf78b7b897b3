import Farsight.Net.Range

/-!
# TCP headers and cookies

The fields of a TCP header that the responder reads, the flag tests, and the SYN cookie: the initial
sequence number of a probe is a keyed hash of its target, so that a SYN+ACK can be recognised
without any record of the probe.
-/

namespace Farsight

/-- `TcpFlags`. -/
abbrev TcpFlags := BitVec 8

namespace TcpFlags

def fin : TcpFlags := 0b00000001#8
def syn : TcpFlags := 0b00000010#8
def rst : TcpFlags := 0b00000100#8
def psh : TcpFlags := 0b00001000#8
def ack : TcpFlags := 0b00010000#8

/-- All bits of `other` are set. -/
def contains (self other : TcpFlags) : Bool :=
  self &&& other == other

end TcpFlags

/-- `TcpHdr`. -/
structure TcpHdr where
  sourcePort : BitVec 16
  destPort : BitVec 16
  seq : BitVec 32
  ack : BitVec 32
  flags : TcpFlags
  deriving DecidableEq, Repr

/-- `PacketTemplate`, a probe to be sent. -/
structure PacketTemplate where
  sourcePort : BitVec 16
  ip : Ipv4Addr
  destinationPort : BitVec 16
  deriving DecidableEq, Repr

/-- `u32::from_ne_bytes(ip.octets())` on a little-endian machine. -/
def nativeBits (ip : Ipv4Addr) : BitVec 32 :=
  ip.extractLsb' 0 8 ++ ip.extractLsb' 8 8 ++ ip.extractLsb' 16 8 ++ ip.extractLsb' 24 8

/-- The multiplier `K` of the cookie. -/
def cookieMultiplier : BitVec 64 := 0xf1357aea2e62a9c5#64

/-- The initial sequence number of the probe of `ip:port`. -/
def cookie (ip : Ipv4Addr) (port : BitVec 16) (seed : BitVec 64) : BitVec 32 :=
  let k := cookieMultiplier
  ((((nativeBits ip).setWidth 64 * k + port.setWidth 64) * k + seed) * k).setWidth 32

end Farsight
