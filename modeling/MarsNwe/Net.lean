import MarsNwe.Lib.ByteBuf

/-! # Addresses of net.h -/

namespace MarsNwe

/-- `ipxAddr_t`. -/
structure IpxAddr where
  net : ByteBuf 4
  node : ByteBuf 6
  sock : ByteBuf 2
deriving DecidableEq

/-- `GET_BE32`. -/
def getBE32 (b : ByteBuf 4) : UInt32 :=
  be32 (b.bytes.getD 0 0) (b.bytes.getD 1 0) (b.bytes.getD 2 0) (b.bytes.getD 3 0)

/-- `U32_TO_BE32`. -/
def u32ToBE32 (u : UInt32) : ByteBuf 4 := ⟨be32Bytes u, length_be32Bytes u⟩

end MarsNwe
