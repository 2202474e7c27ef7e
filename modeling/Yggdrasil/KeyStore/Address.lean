import Yggdrasil.Types

/-!
# Addresses of keys

`addr_for_key`, `subnet_for_key` and `get_key` of `address.rs`. The address holds the number of leading zero bits of the
key and the first 112 bits after the first one bit; keys that agree on these share their address.
-/

namespace Yggdrasil

abbrev Address := Vector UInt8 16

abbrev Subnet := Vector UInt8 8

structure AddrLoop where
  ones : Nat
  done : Bool
  temp : List UInt8
  bits : UInt8
  nBits : UInt8

def AddrLoop.step (s : AddrLoop) (bit : Bool) : AddrLoop :=
  if !s.done && bit then { s with ones := s.ones + 1 }
  else if !s.done && !bit then { s with done := true } -- skip the first 0 bit
  else
    let bits := s.bits <<< 1 ||| if bit then 1 else 0
    let nBits := s.nBits + 1
    if nBits == 8 then { s with temp := s.temp ++ [bits], bits := 0, nBits := 0 } else { s with bits, nBits }

def addrForKey (pfx : UInt8) (publicKey : PublicKey) : Address :=
  let inverted := ~~~publicKey
  let last := ((List.range 256).map inverted.getMsbD).foldl AddrLoop.step
    { ones := 0, done := false, temp := [], bits := 0, nBits := 0 }
  let bytes := pfx :: (min last.ones 255).toUInt8 :: last.temp.take 14
  Vector.ofFn fun i => bytes.getD i 0

def subnetForKey (pfx : UInt8) (publicKey : PublicKey) : Subnet :=
  let addr := addrForKey pfx publicKey
  Vector.ofFn fun i => if i = 0 then addr[0] ||| 1 else addr[i.val]

def Address.subnet (addr : Address) : Subnet := Vector.ofFn fun i => addr[i.val]

def isValidAddress (pfx : UInt8) (addr : Address) : Bool := addr[0] == pfx

def isValidSubnet (pfx : UInt8) (subnet : Subnet) : Bool := subnet[0] == pfx + 1

def setKeyBit (key : PublicKey) (pos : Nat) : PublicKey := key ||| 1#256 <<< (255 - pos)

def Address.getKey (addr : Address) : PublicKey :=
  let ones := addr[1].toNat
  let key := (List.range ones).foldl setKeyBit 0
  let key := (List.finRange 112).foldl (fun key idx =>
    let pos := ones + 1 + idx.val
    if pos < 256 ∧ addr[2 + idx.val / 8].toBitVec.getMsbD (idx.val % 8) then setKeyBit key pos else key) key
  ~~~key

def Subnet.getKey (subnet : Subnet) : PublicKey :=
  let addr : Address := Vector.ofFn fun i => if i = 0 then subnet[0] &&& ~~~1 else subnet.toList.getD i 0
  Address.getKey addr

-- the bits after the first 112 are not in the address
example : addrForKey 2 (1 <<< 255) = addrForKey 2 (1 <<< 255 ||| 1) := by decide +kernel

end Yggdrasil
