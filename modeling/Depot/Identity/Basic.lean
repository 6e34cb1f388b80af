import Depot.Text.Digits

/-! Identities of handles: 128 bits, shown as five groups of hexadecimal digits. -/

namespace Depot

structure Identity where
  bits : BitVec 128
  deriving DecidableEq

namespace Identity

instance : Ord Identity := ⟨fun a b => compare a.bits b.bits⟩

instance : Std.OrientedOrd Identity where
  eq_swap := Std.OrientedOrd.eq_swap (α := BitVec 128)

instance : Std.TransOrd Identity where
  isLE_trans h₁ h₂ := Std.TransOrd.isLE_trans (α := BitVec 128) h₁ h₂

instance : Std.LawfulEqOrd Identity where
  compare_self := Std.ReflOrd.compare_self (α := BitVec 128)
  eq_of_compare h := congrArg Identity.mk (Std.LawfulEqOrd.eq_of_compare (α := BitVec 128) h)

def digits (id : Identity) : List Char := Text.hexDigits 32 id.bits.toNat

/-- Puts a dash after the 8th, 12th, 16th and 20th digit. -/
def hyphenate (ds : List Char) : List Char :=
  ds.take 8 ++ '-' :: (ds.drop 8).take 4 ++ '-' :: (ds.drop 12).take 4 ++
    '-' :: (ds.drop 16).take 4 ++ '-' :: ds.drop 20

def text (id : Identity) : String := String.ofList (hyphenate id.digits)

def shortHex (id : Identity) : String := String.ofList (id.digits.take 8)

def shortId (id : Identity) : String := "fs:" ++ id.shortHex

def debug (id : Identity) : String := "HandleId(" ++ id.shortId ++ ")"

def version (id : Identity) : BitVec 4 := id.bits.extractLsb' 76 4

def variant (id : Identity) : BitVec 2 := id.bits.extractLsb' 62 2

/-- Says version 4 and the standard variant. -/
def isRandom (id : Identity) : Bool := id.version = 4 && id.variant = 2

/-- Takes 122 of the given bits: all but those that say version and variant. -/
def random (bits : BitVec 128) : Identity :=
  ⟨bits &&& ~~~0xf000c000000000000000#128 ||| 0x40008000000000000000#128⟩

end Identity

end Depot
