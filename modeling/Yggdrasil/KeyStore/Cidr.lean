import Mathlib.Data.List.DropRight
import Yggdrasil.Base.Ranges
import Yggdrasil.KeyStore.Ckr

/-!
# Lists of CIDR entries

`expand_cidrs` of `ckr.rs`: a list of entries, some of them exclusions, becomes the prefixes that cover what is included
and not excluded. Addresses are numbers below `2 ^ 128` with the arithmetic of `u128`; `none` is a panic, or a loop that
has not ended within its fuel. The parser of the `ipnet` crate (`fromStr`) and the reading of route lists (`routeList`)
are parameters.
-/

namespace Yggdrasil

/-! ## Texts -/

def isWhitespace (c : Char) : Bool :=
  (0x09 ≤ c.toNat && c.toNat ≤ 0x0d) || (0x2000 ≤ c.toNat && c.toNat ≤ 0x200a) ||
    [0x20, 0x85, 0xa0, 0x1680, 0x2028, 0x2029, 0x202f, 0x205f, 0x3000].contains c.toNat

variable (s : String)

def trim : String := String.ofList ((s.toList.dropWhile isWhitespace).rdropWhile isWhitespace)

def stripMark (c : Char) (s : String) : Option String :=
  match s.toList with
  | [] => none
  | c' :: rest => if c' = c then some (String.ofList rest) else none

def startsWith (s pattern : String) : Bool := pattern.toList.isPrefixOf s.toList

def containsChar (c : Char) : Bool := s.toList.contains c

/-! ## Networks -/

def addrOfBits (n x : Nat) : Vector UInt8 n :=
  ⟨(BitVec.beBytes n (BitVec.ofNat (8 * n) x)).toArray, by rw [List.size_toArray, BitVec.length_beBytes]⟩

/-- `Ipv4Net::trunc` and `Ipv6Net::trunc`: the host bits cleared. -/
def Net.trunc {n : Nat} (net : Net n) : Net n := { net with addr := addrOfBits n net.network.toNat }

/-- `Ipv4Net::broadcast` and `Ipv6Net::broadcast`: the host bits set. -/
def Net.broadcast {n : Nat} (net : Net n) : BitVec 128 :=
  net.network ||| BitVec.ofNat 128 (2 ^ (8 * n - net.prefixLen.toNat) - 1)

namespace IpNet

def trunc : IpNet → IpNet
  | v4 net => v4 net.trunc
  | v6 net => v6 net.trunc

def isV4 : IpNet → Bool
  | v4 _ => true
  | v6 _ => false

def bits : IpNet → Nat
  | v4 _ => 32
  | v6 _ => 128

def contains : IpNet → IpAddr → Bool
  | v4 net, .v4 addr => net.contains addr
  | v6 net, .v6 addr => net.contains addr
  | _, _ => false

end IpNet

def netBounds : IpNet → Nat × Nat
  | .v4 net => (net.network.toNat, net.broadcast.toNat)
  | .v6 net => (net.network.toNat, net.broadcast.toNat)

def makeNet (addr : Nat) (prefixLen : UInt8) (bits : Nat) : Option IpNet :=
  if bits = 32 then
    if h : prefixLen.toNat ≤ 32 then some (.v4 { addr := addrOfBits 4 (addr % 2 ^ 32), prefixLen, prefixLen_le := h })
    else none
  else if h : prefixLen.toNat ≤ 128 then some (.v6 { addr := addrOfBits 16 addr, prefixLen, prefixLen_le := h })
  else none

/-! ## Arithmetic of `u128` -/

def u128Max : Nat := 2 ^ 128 - 1

def u128Add (a b : Nat) : Nat := (a + b) % 2 ^ 128

def u128Sub (a b : Nat) : Nat := (a + 2 ^ 128 - b) % 2 ^ 128

def saturatingAdd (a b : Nat) : Nat := min (a + b) u128Max

def trailingZeros (x : Nat) : Nat := ((List.range 128).find? fun i => x.testBit i).getD 128

def leadingZeros (x : Nat) : Nat := if x = 0 then 128 else 127 - x.log2

/-! ## Ranges -/

def rangeLe (r s : Nat × Nat) : Prop := r.1 < s.1 ∨ r.1 = s.1 ∧ r.2 ≤ s.2

instance : DecidableRel rangeLe := fun r s => inferInstanceAs (Decidable (r.1 < s.1 ∨ r.1 = s.1 ∧ r.2 ≤ s.2))

def mergeStep (merged : List (Nat × Nat)) (range : Nat × Nat) : List (Nat × Nat) :=
  match merged.getLast? with
  | some last =>
    if range.1 ≤ saturatingAdd last.2 1 then merged.dropLast ++ [(last.1, max last.2 range.2)] else merged ++ [range]
  | none => merged ++ [range]

def mergeExcludes (excludes : List IpNet) : List (Nat × Nat) :=
  ((excludes.map netBounds).insertionSort rangeLe).foldl mergeStep []

/-- The largest block that is aligned at `cur` and fits in what is left: its size is two to this. -/
def blockSize (cur hi bits : Nat) : Nat :=
  let align := if cur = 0 then bits else min (trailingZeros cur) bits
  let remaining := u128Sub hi cur
  let span := if remaining = u128Max then 128 else 127 - leadingZeros (remaining + 1)
  min (min align span) bits

def emitLoop (hi bits : Nat) : Nat → Nat → List IpNet → Option (List IpNet)
  | 0, _, _ => none
  | fuel + 1, cur, out =>
    let size := blockSize cur hi bits
    (makeNet cur (UInt8.ofNat (bits - size)) bits).bind fun net =>
      -- the block covered the whole address space
      if size = 128 then some (out ++ [net])
      else
        let stop := u128Sub (u128Add cur (2 ^ size)) 1
        if stop ≥ hi then some (out ++ [net]) else emitLoop hi bits fuel (stop + 1) (out ++ [net])

def emitRange (lo hi bits : Nat) (out : List IpNet) : Option (List IpNet) := emitLoop hi bits (hi - lo + 1) lo out

def subtractLoop (incHi bits : Nat) : List (Nat × Nat) → Nat → List IpNet → Option (List IpNet)
  | [], cur, out => emitRange cur incHi bits out
  | (lo, hi) :: excludes, cur, out =>
    if lo > incHi then emitRange cur incHi bits out
    else (if lo > cur then emitRange cur (u128Sub lo 1) bits out else some out).bind fun out =>
      if hi ≥ incHi then some out else subtractLoop incHi bits excludes (u128Add hi 1) out

/-- Subtract a set of excludes from a single include prefix. -/
def subtractMany (includeNet : IpNet) (excludes : List (Nat × Nat)) : Option (List IpNet) :=
  let bounds := netBounds includeNet
  subtractLoop bounds.2 includeNet.bits (excludes.dropWhile fun range => range.2 < bounds.1) bounds.1 []

/-! ## Entries -/

def INETV4_PREFIXES : List String :=
  ["0.0.0.0/5", "8.0.0.0/7", "11.0.0.0/8", "12.0.0.0/6", "16.0.0.0/4", "32.0.0.0/3", "64.0.0.0/2", "128.0.0.0/3",
    "160.0.0.0/5", "168.0.0.0/6", "172.0.0.0/12", "172.32.0.0/11", "172.64.0.0/10", "172.128.0.0/9", "173.0.0.0/8",
    "174.0.0.0/7", "176.0.0.0/4", "192.0.0.0/9", "192.128.0.0/11", "192.160.0.0/13", "192.169.0.0/16", "192.170.0.0/15",
    "192.172.0.0/14", "192.176.0.0/12", "192.192.0.0/10", "193.0.0.0/8", "194.0.0.0/7", "196.0.0.0/6", "200.0.0.0/5",
    "208.0.0.0/4"]

def INETV6_PREFIXES : List String := ["2000::/3"]

def keyword : Option (List String) :=
  if s = "inetv4" then some INETV4_PREFIXES
  else if s = "~inetv4" then some (INETV4_PREFIXES.map ("~" ++ ·))
  else if s = "_inetv4" then some (INETV4_PREFIXES.map ("_" ++ ·))
  else if s = "inetv6" then some INETV6_PREFIXES
  else if s = "~inetv6" then some (INETV6_PREFIXES.map ("~" ++ ·))
  else if s = "_inetv6" then some (INETV6_PREFIXES.map ("_" ++ ·))
  else none

def normalizeSubnetEntries (entries : List String) : List String :=
  entries.flatMap fun entry => (keyword (trim entry)).getD [trim entry]

def isRouteList : Bool :=
  ["file:///", "~file:///", "!file:///", "_file:///", "http://", "https://", "~http://", "~https://", "!http://",
    "!https://", "_http://", "_https://"].any (startsWith s)

def splitMark : String × String :=
  match stripMark '~' s with
  | some rest => ("~", trim rest)
  | none =>
    match stripMark '!' s with
    | some rest => ("!", trim rest)
    | none =>
      match stripMark '_' s with
      | some rest => ("_", trim rest)
      | none => ("", s)

/-- The text that is parsed: a single address is a network of its own. -/
def cidrForParse (cidr : String) : String :=
  if !containsChar cidr '/' then if containsChar cidr ':' then cidr ++ "/128" else cidr ++ "/32" else cidr

section
variable (ckrAdvanced : Bool) (routeList : String → Except String (List String))
  (fromStr : String → Except String IpNet)

def resolveEntry (entry : String) : Except String (List String) :=
  let trimmed := trim entry
  if !ckrAdvanced || !isRouteList trimmed then .ok [trimmed]
  else (routeList (splitMark trimmed).2).map fun lines => lines.map ((splitMark trimmed).1 ++ ·)

def parseEntry (raw : String) : Except String (Bool × IpNet) :=
  let cidrInput := ((stripMark '~' raw).or (stripMark '_' raw)).elim raw trim
  let exclude := stripMark '!' cidrInput
  let cidr := exclude.elim cidrInput trim
  match fromStr (cidrForParse cidr) with
  | .error e => .error ("invalid CIDR '" ++ cidr ++ "': " ++ e)
  | .ok net => .ok (exclude.isSome, net.trunc)

def selectNets (parsed : List (Bool × IpNet)) (exclude v4 : Bool) : List IpNet :=
  (parsed.filter fun p => p.1 == exclude && p.2.isV4 == v4).map Prod.snd

/-- The prefixes that cover what is included and not excluded, one family after the other. -/
def expandNets (parsed : List (Bool × IpNet)) : Option (List IpNet) := do
  let v4Exc := mergeExcludes (selectNets parsed true true)
  let v6Exc := mergeExcludes (selectNets parsed true false)
  let v4 ← (selectNets parsed false true).mapM fun inc => subtractMany inc v4Exc
  let v6 ← (selectNets parsed false false).mapM fun inc => subtractMany inc v6Exc
  return v4.flatten ++ v6.flatten

/-- Parse a list of CIDR entries, where entries prefixed with `!` are treated as exclusions. -/
def expandCidrs (entries : List String) : Option (Except String (List IpNet)) :=
  match entries.mapM (resolveEntry ckrAdvanced routeList) with
  | .error e => some (.error e)
  | .ok resolved =>
    match (normalizeSubnetEntries resolved.flatten).mapM (parseEntry fromStr) with
    | .error e => some (.error e)
    | .ok parsed => (expandNets parsed).map .ok

end

end Yggdrasil
