import Mathlib.Algebra.Order.Field.Rat
import Mathlib.Data.Nat.Log
import Mathlib.Data.Rat.Floor
import Mathlib.Tactic.Common

/-!
The Lua values the scripts read from decoded JSON, and the operations on them
that can raise.

Numbers are exact rationals: rounding, infinities and NaN are outside the
model, so tonumber reads the spellings inf and nan as no number. A table is
either the array or the object cjson builds; `null` is the userdata cjson and
resty.redis use for null, which is true in a condition and is not `nil`.
-/
namespace OpenrestyGateway

inductive Val where
  | nil
  | null
  | bool (b : Bool)
  | num (q : ℚ)
  | str (s : String)
  | arr (xs : List Val)
  | obj (fs : List (String × Val))

inductive LuaType where
  | nil | userdata | boolean | number | string | table
  deriving DecidableEq, Repr

/-- The runtime errors of the modelled code, by the operation that raises. -/
inductive LuaError where
  | index (t : LuaType)
  | call (t : LuaType)
  | length (t : LuaType)
  | arith (t : LuaType)
  | compare (t u : LuaType)
  | concat (t : LuaType)
  | badArgument (function : String) (t : LuaType)
  | assertion
  | json
  deriving DecidableEq, Repr

theorem LuaError.bind_eq_ok {α β : Type} {x : Except LuaError α} {f : α → Except LuaError β}
    {b : β} (h : (x >>= f) = .ok b) : ∃ a, x = .ok a ∧ f a = .ok b := by
  cases x with
  | ok a => exact ⟨a, rfl, h⟩
  | error e => cases h

theorem LuaError.error_ne_ok {α : Type} (e : LuaError) : ¬ ∃ a : α, Except.error e = .ok a := by
  intro h
  obtain ⟨a, h⟩ := h
  cases h

theorem LuaError.bind_ok_iff {α β : Type} {x : Except LuaError α} {f : α → Except LuaError β} :
    (∃ b, (x >>= f) = .ok b) ↔ ∃ a, x = .ok a ∧ ∃ b, f a = .ok b := by
  cases x with
  | ok a =>
      constructor
      · intro h
        exact ⟨a, rfl, h⟩
      · intro h
        obtain ⟨a', ha, h⟩ := h
        cases ha
        exact h
  | error e =>
      refine iff_of_false (error_ne_ok e) (fun h => ?_)
      obtain ⟨a, ha, -⟩ := h
      cases ha

namespace Val

def type : Val → LuaType
  | .nil => .nil
  | .null => .userdata
  | .bool _ => .boolean
  | .num _ => .number
  | .str _ => .string
  | .arr _ | .obj _ => .table

def truthy : Val → Bool
  | .nil | .bool false => false
  | _ => true

def or (a b : Val) : Val := if a.truthy then a else b

/-- `a == b`. Two tables decoded apart are different objects. -/
def rawEq : Val → Val → Bool
  | .nil, .nil | .null, .null => true
  | .bool a, .bool b => a == b
  | .num a, .num b => decide (a = b)
  | .str a, .str b => a == b
  | _, _ => false

def isStr (a : Val) (s : String) : Bool :=
  match a with
  | .str t => t == s
  | _ => false

def isTrue : Val → Bool
  | .bool b => b
  | _ => false

def isNum (a : Val) (q : ℚ) : Bool :=
  match a with
  | .num r => decide (r = q)
  | _ => false

/-- `a.name`. Indexing a string reads the string library, which has none of the
field names used here. -/
def index : Val → String → Except LuaError Val
  | .obj fs, name => .ok ((fs.lookup name).getD .nil)
  | .arr _, _ | .str _, _ => .ok .nil
  | a, _ => .error (.index a.type)

/-- `a[i]`, counting from 1. -/
def at' : Val → Nat → Except LuaError Val
  | .arr xs, i => .ok (xs.getD (i - 1) .nil)
  | .obj _, _ | .str _, _ => .ok .nil
  | a, _ => .error (.index a.type)

/-- The elements `ipairs` visits. -/
def ipairs : Val → Except LuaError (List Val)
  | .arr xs => .ok xs
  | .obj _ => .ok []
  | a => .error (.badArgument "ipairs" a.type)

/-- The values `pairs` visits, in the order of the table's parts. -/
def pairs : Val → Except LuaError (List Val)
  | .arr xs => .ok xs
  | .obj fs => .ok (fs.map Prod.snd)
  | a => .error (.badArgument "pairs" a.type)

mutual
/-- Equality of two texts, by what they decode to. -/
def same : Val → Val → Bool
  | .nil, .nil | .null, .null => true
  | .bool a, .bool b => a == b
  | .num a, .num b => decide (a = b)
  | .str a, .str b => a == b
  | .arr xs, .arr ys => sameList xs ys
  | .obj fs, .obj gs => sameFields fs gs
  | _, _ => false

def sameList : List Val → List Val → Bool
  | [], [] => true
  | x :: xs, y :: ys => same x y && sameList xs ys
  | _, _ => false

def sameFields : List (String × Val) → List (String × Val) → Bool
  | [], [] => true
  | (f, x) :: fs, (g, y) :: gs => f == g && (same x y && sameFields fs gs)
  | _, _ => false
end

mutual
theorem same_iff : ∀ a b : Val, same a b = true ↔ a = b
  | .nil, b | .null, b => by cases b <;> simp [same]
  | .bool a, b | .num a, b | .str a, b => by cases b <;> simp [same]
  | .arr xs, b => by
      cases b with
      | arr ys => simp [same, sameList_iff xs ys]
      | _ => simp [same]
  | .obj fs, b => by
      cases b with
      | obj gs => simp [same, sameFields_iff fs gs]
      | _ => simp [same]

theorem sameList_iff : ∀ xs ys : List Val, sameList xs ys = true ↔ xs = ys
  | [], ys => by cases ys <;> simp [sameList]
  | x :: xs, ys => by
      cases ys with
      | nil => simp [sameList]
      | cons y ys => simp [sameList, same_iff x y, sameList_iff xs ys]

theorem sameFields_iff : ∀ fs gs : List (String × Val), sameFields fs gs = true ↔ fs = gs
  | [], gs => by cases gs <;> simp [sameFields]
  | (f, x) :: fs, gs => by
      cases gs with
      | nil => simp [sameFields]
      | cons g gs =>
          obtain ⟨g, y⟩ := g
          simp [sameFields, same_iff x y, sameFields_iff fs gs, and_assoc]
end

instance : DecidableEq Val := fun a b => decidable_of_iff (same a b = true) (same_iff a b)

theorem isStr_iff {a : Val} {s : String} : a.isStr s = true ↔ a = .str s := by
  cases a with
  | str t => simp [isStr]
  | _ => simp [isStr]

@[simp] theorem or_num (q : ℚ) (b : Val) : Val.or (.num q) b = .num q := rfl
@[simp] theorem or_str (s : String) (b : Val) : Val.or (.str s) b = .str s := rfl
end Val

/-! ### Numbers and their texts -/

def isSpace (c : Char) : Bool :=
  c == ' ' || c == '\t' || c == '\n' || c == '\r' || c.toNat == 11 || c.toNat == 12

def digitVal (base : Nat) (c : Char) : Option Nat :=
  let d :=
    if '0' ≤ c ∧ c ≤ '9' then c.toNat - 48
    else if 'a' ≤ c ∧ c ≤ 'z' then c.toNat - 87
    else if 'A' ≤ c ∧ c ≤ 'Z' then c.toNat - 55
    else base
  if d < base then some d else none

def readDigits (base : Nat) (acc count : Nat) : List Char → Nat × Nat × List Char
  | [] => (acc, count, [])
  | c :: cs =>
      match digitVal base c with
      | some d => readDigits base (acc * base + d) (count + 1) cs
      | none => (acc, count, c :: cs)

def readExponent (cs : List Char) : Option (Int × List Char) :=
  let (neg, ds) := match cs with
    | '-' :: ds => (true, ds)
    | '+' :: ds => (false, ds)
    | ds => (false, ds)
  match readDigits 10 0 0 ds with
  | (_, 0, _) => none
  | (e, _, rest) => some (if neg then -(e : Int) else e, rest)

def readNumber (base : Nat) (mark : Char) (expBase : ℚ) (cs : List Char) : Option ℚ :=
  let (whole, n, rest) := readDigits base 0 0 cs
  let (m, k, rest) := match rest with
    | '.' :: ds => if base = 2 then (whole, 0, rest) else readDigits base whole 0 ds
    | _ => (whole, 0, rest)
  if n + k = 0 then none
  else
    let value : ℚ := (m : ℚ) / (base : ℚ) ^ k
    match rest with
    | c :: ds =>
        if base ≠ 2 ∧ c.toLower = mark then
          match readExponent ds with
          | some (e, rest) => if rest.all isSpace then some (value * expBase ^ e) else none
          | none => none
        else if rest.all isSpace then some value else none
    | [] => some value

def readUnsigned : List Char → Option ℚ
  | '0' :: 'x' :: cs | '0' :: 'X' :: cs => readNumber 16 'p' 2 cs
  | '0' :: 'b' :: cs | '0' :: 'B' :: cs => readNumber 2 'p' 2 cs
  | cs => readNumber 10 'e' 10 cs

def tonumber (s : String) : Option ℚ :=
  match s.toList.dropWhile isSpace with
  | '-' :: cs => (readUnsigned cs).map (fun q => -q)
  | '+' :: cs => readUnsigned cs
  | cs => readUnsigned cs

def roundHalfEven (q : ℚ) : Nat :=
  let n := q.floor.toNat
  let r := q - n
  if r < 1 / 2 then n else if 1 / 2 < r then n + 1 else if n % 2 = 0 then n else n + 1

def trimZeros (cs : List Char) : List Char :=
  (cs.reverse.dropWhile (fun c => c == '0')).reverse

def withPoint (whole frac : List Char) : List Char :=
  match trimZeros frac with
  | [] => whole
  | f => whole ++ '.' :: f

/-- A positive number under the format %.14g. -/
def positiveText (a : ℚ) : List Char :=
  let x : Int :=
    if 1 ≤ a then Nat.log 10 a.floor.toNat else -(Nat.clog 10 (1 / a).ceil.toNat : Int)
  let m := roundHalfEven (a * (10 : ℚ) ^ (13 - x))
  let (m, x) := if m = 10 ^ 14 then (10 ^ 13, x + 1) else (m, x)
  let ds := (toString m).toList
  if x < -4 ∨ 14 ≤ x then
    let e := (toString x.natAbs).toList
    let e := if e.length < 2 then '0' :: e else e
    withPoint (ds.take 1) (ds.drop 1) ++ 'e' :: (if x < 0 then '-' else '+') :: e
  else if x < 0 then withPoint ['0'] (List.replicate (x.natAbs - 1) '0' ++ ds)
  else withPoint (ds.take (x.toNat + 1)) (ds.drop (x.toNat + 1))

def numberText (q : ℚ) : String :=
  String.ofList
    (if q = 0 then ['0'] else if q < 0 then '-' :: positiveText (-q) else positiveText q)

namespace Val

def text : Val → Except LuaError String
  | .str s => .ok s
  | .num q => .ok (numberText q)
  | a => .error (.concat a.type)

/-- `a .. b .. c`, which Lua evaluates from the right. -/
def concat : List Val → Except LuaError String
  | [] => .ok ""
  | a :: as => do
      let rest ← concat as
      let s ← a.text
      return s ++ rest

theorem concat_eq_ok {a : Val} {as : List Val} {text : String}
    (h : concat (a :: as) = .ok text) :
    ∃ s rest, a.text = .ok s ∧ concat as = .ok rest ∧ text = s ++ rest := by
  obtain ⟨rest, hrest, h⟩ := LuaError.bind_eq_ok h
  obtain ⟨s, hs, h⟩ := LuaError.bind_eq_ok h
  cases h
  exact ⟨s, rest, hs, hrest, rfl⟩

/-- An operand of an arithmetic operation: numeric strings are converted. -/
def toNumber : Val → Except LuaError ℚ
  | .num q => .ok q
  | .str s =>
      match tonumber s with
      | some q => .ok q
      | none => .error (.arith .string)
  | a => .error (.arith a.type)

/-- An operand of a comparison with a number: no conversion. -/
def toOrdered : Val → Except LuaError ℚ
  | .num q => .ok q
  | a => .error (.compare a.type .number)

def length : Val → Except LuaError Nat
  | .arr xs => .ok xs.length
  | .obj _ => .ok 0
  | .str s => .ok s.utf8ByteSize
  | a => .error (.length a.type)

@[simp] theorem text_str (s : String) : text (.str s) = .ok s := rfl
@[simp] theorem text_num (q : ℚ) : text (.num q) = .ok (numberText q) := rfl
@[simp] theorem toOrdered_num (q : ℚ) : toOrdered (.num q) = .ok q := rfl

end Val
end OpenrestyGateway
