import OpenrestyGateway.LuaValue
import Mathlib.Data.Nat.Digits.Defs

/-!
util/util.lua: matching an address against a rule key that is either a network in
CIDR notation or a literal address.
-/
namespace OpenrestyGateway
namespace Util

/-- The maximal runs of characters in a class, as `gmatch` finds them. -/
def runs (p : Char → Bool) (cur : List Char) : List Char → List (List Char)
  | [] => if cur.isEmpty then [] else [cur.reverse]
  | c :: cs =>
      if p c then runs p (c :: cur) cs
      else if cur.isEmpty then runs p [] cs
      else cur.reverse :: runs p [] cs

def dec2bin (num : Nat) : List Char :=
  if num = 0 then List.replicate 8 '0'
  else
    let bits := (Nat.digits 2 num).reverse.map (fun b => if b = 1 then '1' else '0')
    List.replicate (8 - bits.length) '0' ++ bits

def ipToBinary (ipAddress : List Char) : List Char :=
  ((runs Char.isDigit [] ipAddress).map
    (fun part => dec2bin (readDigits 10 0 0 part).1)).flatten

def isIPInRange (ip subnet : List Char) (mask : ℚ) : Bool :=
  (ipToBinary ip).take mask.floor.toNat == (ipToBinary subnet).take mask.floor.toNat

def slashParts (str : String) : List (List Char) := runs (fun c => c != '/') [] str.toList

def isSubnetMaskString (str : String) : Bool :=
  match slashParts str with
  | [ipPart, maskPart] =>
      let ipOctets := runs (fun c => c != '.') [] ipPart
      let octetOk := fun octet => match tonumber (String.ofList octet) with
        | some num => decide (0 ≤ num ∧ num ≤ 255)
        | none => false
      if ipOctets.length = 4 && ipOctets.all octetOk then
        match tonumber (String.ofList maskPart) with
        | some maskNum => decide (0 ≤ maskNum ∧ maskNum ≤ 32)
        | none => false
      else false
  | _ => false

/-- A rule key that is no string is no network and equals no address; `gmatch`
converts a number and raises on anything else but nil. -/
def isInSubnetMask (ip : String) : Val → Except LuaError Bool
  | .nil | .num _ => .ok false
  | .str subnet =>
      if isSubnetMaskString subnet then
        match slashParts subnet with
        | [ipPart, maskPart] =>
            .ok (isIPInRange ip.toList ipPart ((tonumber (String.ofList maskPart)).getD 0))
        | _ => .ok false
      else .ok (ip == subnet)
  | subnet => .error (.badArgument "gmatch" subnet.type)

def tableLength : Val → Except LuaError Nat
  | .nil => .ok 0
  | .arr xs => .ok xs.length
  | .obj fs => .ok fs.length
  | t => .error (.badArgument "pairs" t.type)

theorem isInSubnetMask_str (ip s : String) : ∃ b, isInSubnetMask ip (.str s) = .ok b := by
  simp only [isInSubnetMask]
  split
  · split
    · exact ⟨_, rfl⟩
    · exact ⟨_, rfl⟩
  · exact ⟨_, rfl⟩

example : isInSubnetMask "10.0.1.77" (.str "10.0.1.0/24") = .ok true := by decide +kernel

end Util
end OpenrestyGateway
