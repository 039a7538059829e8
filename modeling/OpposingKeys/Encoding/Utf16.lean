import OpposingKeys.Encoding.Surrogate

/-!
# UTF-16

Each surrogate without its partner becomes one `none`, and so does an odd byte at the end, together
with a high surrogate right before it.
-/

namespace OpposingKeys.Encoding.Utf16

set_option autoImplicit false

inductive Order where
  | little
  | big
deriving DecidableEq

def Order.unit : Order → UInt8 → UInt8 → UInt16
  | little, a, b => b.toUInt16 <<< 8 ||| a.toUInt16
  | big, a, b => a.toUInt16 <<< 8 ||| b.toUInt16

def Order.bytes : Order → UInt16 → List UInt8
  | little, u => [u.toUInt8, (u >>> 8).toUInt8]
  | big, u => [(u >>> 8).toUInt8, u.toUInt8]

/-- The units that the bytes make up, and whether a byte is left over. -/
def readUnits (order : Order) : List UInt8 → List UInt16 × Bool
  | [] => ([], false)
  | [_] => ([], true)
  | a :: b :: rest =>
    let tail := readUnits order rest
    (order.unit a b :: tail.1, tail.2)

/-- The characters that the units make up; `leftOver` says that a byte follows them. -/
def join (leftOver : Bool) : List UInt16 → List (Option Char)
  | [] => if leftOver then [none] else []
  | u :: rest =>
    if isHigh u then
      match rest with
      | [] => [none]
      | v :: tail =>
        if isLow v then some (joinSurrogates u v) :: join leftOver tail
        else none :: join leftOver (v :: tail)
    else if isLow u then none :: join leftOver rest
    else some (Char.ofNat u.toNat) :: join leftOver rest

def decode (order : Order) (bytes : List UInt8) : List (Option Char) :=
  let read := readUnits order bytes
  join read.2 read.1

def encode (order : Order) (cs : List Char) : List UInt8 :=
  cs.flatMap fun c => (units c).flatMap order.bytes

end OpposingKeys.Encoding.Utf16
