import OpenrestyGateway.Library.Binary
import OpenrestyGateway.DecimalText
import OpenrestyGateway.Util

/-!
The addresses that a rule key in CIDR notation matches.

The digits of both texts are written in binary and compared as strings. On IPv4
addresses this compares the upper bits of two 32-bit numbers; on other texts it
compares whatever decimal digits are found.
-/
namespace OpenrestyGateway
namespace Util

theorem runs_eq (p : Char → Bool) (cur xs : List Char) :
    runs p cur xs =
      (xs.splitOnPPrepend (fun c => !p c) cur).filter (fun part => !part.isEmpty) := by
  induction xs generalizing cur with
  | nil =>
      cases cur with
      | nil => rfl
      | cons c cur => simp [runs]
  | cons c xs ih =>
      cases hp : p c with
      | true =>
          simp only [runs, hp, if_true, ih]
          rw [List.splitOnPPrepend_cons_neg (by simp [hp])]
      | false =>
          rw [List.splitOnPPrepend_cons_pos (by simp [hp])]
          cases cur with
          | nil => simp [runs, hp, ih]
          | cons d cur => simp [runs, hp, ih]

theorem of_mem_runs {p : Char → Bool} {cur xs part : List Char}
    (hcur : ∀ c ∈ cur, p c = true) (h : part ∈ runs p cur xs) : ∀ c ∈ part, p c = true := by
  induction xs generalizing cur with
  | nil =>
      simp only [runs] at h
      split at h
      · cases h
      · cases List.mem_singleton.mp h
        exact fun c hc => hcur c (List.mem_reverse.mp hc)
  | cons a xs ih =>
      simp only [runs] at h
      split at h
      · refine ih (fun c hc => ?_) h
        rcases List.mem_cons.mp hc with rfl | hc
        · assumption
        · exact hcur c hc
      · have hnone : ∀ c ∈ ([] : List Char), p c = true := fun c hc => by cases hc
        split at h
        · exact ih hnone h
        · rcases List.mem_cons.mp h with rfl | h
          · exact fun c hc => hcur c (List.mem_reverse.mp hc)
          · exact ih hnone h

section Runs
variable {p : Char → Bool} {xs ys : List Char} {c : Char}

theorem runs_append (hc : p c = false) :
    runs p [] (xs ++ c :: ys) = runs p [] xs ++ runs p [] ys := by
  simp only [runs_eq, List.splitOnPPrepend_nil_right]
  rw [List.splitOnP_append_cons xs ys (by simp [hc]), List.filter_append]

theorem runs_all (hne : xs ≠ []) (hall : ∀ c ∈ xs, p c = true) : runs p [] xs = [xs] := by
  have hsplit : xs.splitOnP (fun c => !p c) = [xs] :=
    List.splitOnP_eq_singleton (fun c hc => by simp [hall c hc])
  have hempty : xs.isEmpty = false := List.isEmpty_eq_false_iff.mpr hne
  simp only [runs_eq, List.splitOnPPrepend_nil_right, hsplit, List.filter_cons, hempty]
  rfl

end Runs

/-! ### The binary texts -/

def bitChar (b : Bool) : Char := if b then '1' else '0'

theorem bitChar_injective : Function.Injective bitChar := by
  intro a b h
  cases a <;> cases b <;> first | rfl | cases h

theorem dec2bin_eq (n : Nat) :
    dec2bin n = (Binary.digits (max 8 n.size) n).map bitChar := by
  have hchars : ∀ l : List Nat, (l.map (fun d => decide (d = 1))).map bitChar =
      l.map (fun b => if b = 1 then '1' else '0') := by
    intro l
    simp [bitChar]
  have hpad : max 8 n.size = (8 - n.size) + n.size := by omega
  rw [hpad, Binary.digits_pad _ (Nat.lt_size_self n), Binary.digits_size, List.map_append,
    hchars, List.map_replicate]
  have hlen : (Nat.digits 2 n).length = n.size := by
    rw [Nat.digits_two_eq_bits, List.length_map, Nat.size_eq_bits_len]
  by_cases h0 : n = 0
  · rw [h0]
    rfl
  · simp only [dec2bin, if_neg h0, List.length_map, List.length_reverse, hlen]
    rfl

/-- Numbers one after the other, each in at least eight binary digits. -/
def binaryText (numbers : List Nat) : List Bool :=
  numbers.flatMap (fun n => Binary.digits (max 8 n.size) n)

theorem ipToBinary_eq (cs : List Char) :
    ipToBinary cs = (binaryText ((runs Char.isDigit [] cs).map decimal)).map bitChar := by
  have hdigits : ∀ part ∈ runs Char.isDigit [] cs, ∀ c ∈ part, c.isDigit = true :=
    fun part hpart => of_mem_runs (fun c hc => by cases hc) hpart
  simp only [ipToBinary]
  generalize runs Char.isDigit [] cs = parts at hdigits
  induction parts with
  | nil => rfl
  | cons part parts ih =>
      have hpart : dec2bin (readDigits 10 0 0 part).1 =
          (Binary.digits (max 8 (decimal part).size) (decimal part)).map bitChar := by
        rw [readDigits_eq (hdigits part (List.mem_cons_self ..)), dec2bin_eq]
        rfl
      have hrest := ih (fun q hq => hdigits q (List.mem_cons_of_mem part hq))
      simp only [List.map_cons, List.flatten_cons, hrest, hpart, binaryText,
        List.flatMap_cons, List.map_append]

/-! ### Addresses of the fourth version -/

structure Ipv4 where
  a : Decimal 255
  b : Decimal 255
  c : Decimal 255
  d : Decimal 255

namespace Ipv4

def octets (ip : Ipv4) : List (List Char) :=
  [ip.a.chars, ip.b.chars, ip.c.chars, ip.d.chars]

def chars (ip : Ipv4) : List Char :=
  ip.a.chars ++ '.' :: (ip.b.chars ++ '.' :: (ip.c.chars ++ '.' :: ip.d.chars))

def text (ip : Ipv4) : String := String.ofList ip.chars

/-- The address as a number of 32 bits. -/
def value (ip : Ipv4) : Nat :=
  ((ip.a.value * 2 ^ 8 + ip.b.value) * 2 ^ 8 +
    ip.c.value) * 2 ^ 8 + ip.d.value

theorem value_lt (ip : Ipv4) : ip.value < 2 ^ 32 := by
  have ha := ip.a.le
  have hb := ip.b.le
  have hc := ip.c.le
  have hd := ip.d.le
  simp only [value]
  omega

theorem runs_chars {p : Char → Bool} (hp : ∀ c, c.isDigit = true → p c = true)
    (hdot : p '.' = false) (ip : Ipv4) : runs p [] ip.chars = ip.octets := by
  have hdigits : ∀ {bound} (n : Decimal bound), runs p [] n.chars = [n.chars] :=
    fun n => runs_all n.ne_nil (fun c hc => hp c (n.isDigit c hc))
  simp only [chars, runs_append hdot, hdigits]
  rfl

theorem ipToBinary_chars (ip : Ipv4) :
    ipToBinary ip.chars = (Binary.digits 32 ip.value).map bitChar := by
  have hruns : runs Char.isDigit [] ip.chars = ip.octets := runs_chars (fun _ h => h) rfl ip
  have hwidth : ∀ n : Decimal 255, max 8 (n.value).size = 8 := by
    intro n
    have hsize : (n.value).size ≤ 8 := Nat.size_le.mpr (by have := n.le; omega)
    omega
  have hbits : binaryText (ip.octets.map decimal) = Binary.digits 32 ip.value := by
    have hvalue : ∀ n : Digits, decimal n.chars = n.value := fun _ => rfl
    have hlt : ∀ n : Decimal 255, n.value < 2 ^ 8 :=
      fun n => by have := n.le; omega
    simp only [value, Binary.digits_append 24 8 _ (hlt ip.d),
      Binary.digits_append 16 8 _ (hlt ip.c), Binary.digits_append 8 8 _ (hlt ip.b)]
    simp only [octets, binaryText, List.map_cons, List.map_nil, List.flatMap_cons,
      List.flatMap_nil, hvalue, hwidth, List.append_nil, List.append_assoc]
  rw [ipToBinary_eq, hruns, hbits]

theorem not_slash_of_isDigit {c : Char} (h : c.isDigit = true) : (c != '/') = true := by
  refine bne_iff_ne.mpr (fun heq => ?_)
  rw [heq] at h
  cases h

theorem not_slash (ip : Ipv4) : ∀ c ∈ ip.chars, (c != '/') = true := by
  intro c hc
  simp only [chars, List.mem_append, List.mem_cons] at hc
  rcases hc with h | rfl | h | rfl | h | rfl | h
  · exact not_slash_of_isDigit (ip.a.isDigit c h)
  · rfl
  · exact not_slash_of_isDigit (ip.b.isDigit c h)
  · rfl
  · exact not_slash_of_isDigit (ip.c.isDigit c h)
  · rfl
  · exact not_slash_of_isDigit (ip.d.isDigit c h)

theorem chars_ne_nil (ip : Ipv4) : ip.chars ≠ [] := by
  simp [chars]

/-- The rule key of a network. -/
def rule (net : Ipv4) (m : Decimal 32) : String :=
  net.text ++ "/" ++ String.ofList m.chars

theorem slashParts_rule (net : Ipv4) (m : Decimal 32) :
    slashParts (net.rule m) = [net.chars, m.chars] := by
  have htext : (net.rule m).toList = net.chars ++ '/' :: m.chars := by
    simp [rule, text, String.toList_append, String.toList_ofList]
  have hmask := runs_all m.ne_nil (fun c hc => not_slash_of_isDigit (m.isDigit c hc))
  rw [slashParts, htext, runs_append (by rfl), runs_all net.chars_ne_nil net.not_slash, hmask]
  rfl

theorem slashParts_text (key : Ipv4) : slashParts key.text = [key.chars] := by
  rw [slashParts, text, String.toList_ofList, runs_all key.chars_ne_nil key.not_slash]

theorem isSubnetMaskString_rule (net : Ipv4) (m : Decimal 32) :
    isSubnetMaskString (net.rule m) = true := by
  have hruns : runs (fun c => c != '.') [] net.chars = net.octets := by
    refine runs_chars (fun c hc => bne_iff_ne.mpr (fun heq => ?_)) rfl net
    rw [heq] at hc
    cases hc
  have hoctet : ∀ n : Decimal 255, n.value ≤ 255 := fun n => n.le
  have hmask : m.value ≤ 32 := m.le
  have hread : ∀ {bound} (n : Decimal bound),
      tonumber (String.ofList n.chars) = some (n.value : ℚ) :=
    fun n => tonumber_digits n.ne_nil n.isDigit
  simp only [isSubnetMaskString, slashParts_rule, hruns, octets, List.all_cons, List.all_nil,
    hread]
  norm_cast
  simp [hoctet, hmask]

/-- Two texts are compared up to as many characters as the mask says. -/
theorem isInSubnetMask_rule (ip : String) (net : Ipv4) (m : Decimal 32) :
    isInSubnetMask ip (.str (net.rule m)) =
      .ok ((ipToBinary ip.toList).take m.value ==
        ((Binary.digits 32 net.value).map bitChar).take m.value) := by
  have hmask : ((tonumber (String.ofList m.chars)).getD 0).floor.toNat = m.value := by
    rw [tonumber_digits m.ne_nil m.isDigit, Option.getD_some]
    exact congrArg Int.toNat (Rat.floor_intCast m.value)
  simp only [isInSubnetMask, isSubnetMaskString_rule, if_true, slashParts_rule, isIPInRange,
    hmask, ipToBinary_chars]

/-- A network in CIDR notation matches the addresses with its upper bits, any other key
that is an address matches that text only. -/
theorem isInSubnetMask_iff :
    (∀ (ip net : Ipv4) (m : Decimal 32),
      isInSubnetMask ip.text (.str (net.text ++ "/" ++ String.ofList m.chars)) = .ok true ↔
        ip.value >>> (32 - m.value) = net.value >>> (32 - m.value)) ∧
    ∀ (ip : String) (key : Ipv4), isInSubnetMask ip (.str key.text) = .ok true ↔ ip = key.text := by
  constructor
  · intro ip net m
    have hm : m.value ≤ 32 := m.le
    have hlt : ∀ a : Ipv4, a.value / 2 ^ (32 - m.value) < 2 ^ m.value := by
      intro a
      rw [Nat.div_lt_iff_lt_mul (Nat.two_pow_pos _), ← pow_add, Nat.add_sub_cancel' hm]
      exact a.value_lt
    have htext : ip.text.toList = ip.chars := String.toList_ofList
    rw [show net.text ++ "/" ++ String.ofList m.chars = net.rule m from rfl,
      isInSubnetMask_rule, htext, ipToBinary_chars, ← List.map_take, ← List.map_take,
      Binary.take_digits hm, Binary.take_digits hm, Except.ok.injEq, beq_iff_eq,
      (List.map_injective_iff.mpr bitChar_injective).eq_iff, Binary.digits_inj (hlt ip) (hlt net),
      Nat.shiftRight_eq_div_pow, Nat.shiftRight_eq_div_pow]
  · intro ip key
    have hplain : isSubnetMaskString key.text = false := by
      simp only [isSubnetMaskString, slashParts_text]
    simp only [isInSubnetMask, hplain, Bool.false_eq_true, if_false, Except.ok.injEq, beq_iff_eq]

end Ipv4

/-! ### Addresses of the sixth version -/

def isHexDigit (c : Char) : Bool :=
  c.isDigit || (decide ('a' ≤ c) && decide (c ≤ 'f')) || (decide ('A' ≤ c) && decide (c ≤ 'F'))

structure HexGroup where
  digits : List Char
  ne_nil : digits ≠ []
  length_le : digits.length ≤ 4
  isHexDigit : ∀ c ∈ digits, isHexDigit c = true

def HexGroup.ofChars (cs : List Char)
    (h : cs.isEmpty = false ∧ cs.length ≤ 4 ∧ cs.all Util.isHexDigit = true) : HexGroup :=
  ⟨cs, List.isEmpty_eq_false_iff.mp h.1, h.2.1, List.all_eq_true.mp h.2.2⟩

/-- The numbers a reader of decimal digits finds in a group. -/
def HexGroup.numbers (g : HexGroup) : List Nat :=
  ((g.digits.splitOnP (fun c => !c.isDigit)).filter (fun part => !part.isEmpty)).map decimal

def joinGroups : List HexGroup → List Char
  | [] => []
  | [g] => g.digits
  | g :: gs => g.digits ++ ':' :: joinGroups gs

/-- Eight groups, or fewer around a compressed gap. -/
structure Ipv6 where
  groups : List HexGroup
  afterGap : Option (List HexGroup)
  count : match afterGap with
    | none => groups.length = 8
    | some gs => groups.length + gs.length < 8

namespace Ipv6

def text (ip : Ipv6) : String :=
  String.ofList (match ip.afterGap with
    | none => joinGroups ip.groups
    | some gs => joinGroups ip.groups ++ ':' :: ':' :: joinGroups gs)

/-- The decimal numbers in the address, group by group, in binary. -/
def bits (ip : Ipv6) : List Bool :=
  binaryText ((ip.groups ++ ip.afterGap.getD []).flatMap HexGroup.numbers)

theorem runs_joinGroups (gs : List HexGroup) :
    (runs Char.isDigit [] (joinGroups gs)).map decimal = gs.flatMap HexGroup.numbers := by
  have hgroup : ∀ g : HexGroup, (runs Char.isDigit [] g.digits).map decimal = g.numbers := by
    intro g
    rw [runs_eq, List.splitOnPPrepend_nil_right]
    rfl
  induction gs with
  | nil => rfl
  | cons g gs ih =>
      cases gs with
      | nil => simpa [joinGroups] using hgroup g
      | cons g' gs =>
          have hcolon : Char.isDigit ':' = false := rfl
          simp only [joinGroups, runs_append hcolon, List.map_append, hgroup, List.flatMap_cons]
          exact congrArg _ ih

theorem ipToBinary_text (ip : Ipv6) : ipToBinary ip.text.toList = ip.bits.map bitChar := by
  have hcolon : Char.isDigit ':' = false := rfl
  have hgap : ∀ cs : List Char, runs Char.isDigit [] (':' :: cs) = runs Char.isDigit [] cs :=
    fun _ => rfl
  rw [ipToBinary_eq, text, String.toList_ofList, bits]
  cases ip.afterGap with
  | none => simp only [runs_joinGroups, Option.getD_none, List.append_nil]
  | some gs =>
      simp only [runs_append hcolon, hgap, List.map_append, runs_joinGroups, Option.getD_some,
        List.flatMap_append]

/-- An address falls under a network of the other family exactly if the decimal digits of
its groups happen to begin with the bits of the network. -/
theorem not_isInSubnetMask_iff (ip : Ipv6) (net : Ipv4) (m : Decimal 32) :
    isInSubnetMask ip.text (.str (net.text ++ "/" ++ String.ofList m.chars)) = .ok false ↔
      ¬ Binary.digits m.value (net.value >>> (32 - m.value)) <+: ip.bits := by
  have hm : m.value ≤ 32 := m.le
  rw [show net.text ++ "/" ++ String.ofList m.chars = net.rule m from rfl,
    Ipv4.isInSubnetMask_rule, ipToBinary_text, ← List.map_take, ← List.map_take,
    Binary.take_digits hm, Nat.shiftRight_eq_div_pow, List.prefix_iff_eq_take,
    Binary.length_digits, Except.ok.injEq, beq_eq_false_iff_ne, ne_eq,
    (List.map_injective_iff.mpr bitChar_injective).eq_iff, eq_comm]

/-- The groups 2a00 and 1450 read as 2, 0 and 1450. -/
theorem ipv6_in_ipv4_network : ∃ (ip : Ipv6) (net : Ipv4) (m : Decimal 32),
    ip.text = "2a00:1450::200e" ∧ net.text = "2.0.0.0" ∧ m.value = 16 ∧
    isInSubnetMask ip.text (.str (net.text ++ "/" ++ String.ofList m.chars)) = .ok true := by
  refine ⟨⟨[.ofChars ['2', 'a', '0', '0'] ⟨rfl, by decide, rfl⟩,
      .ofChars ['1', '4', '5', '0'] ⟨rfl, by decide, rfl⟩],
      some [.ofChars ['2', '0', '0', 'e'] ⟨rfl, by decide, rfl⟩], by decide⟩,
    ⟨⟨.ofChars ['2'] ⟨rfl, rfl⟩, by decide⟩, ⟨.ofChars ['0'] ⟨rfl, rfl⟩, by decide⟩,
      ⟨.ofChars ['0'] ⟨rfl, rfl⟩, by decide⟩, ⟨.ofChars ['0'] ⟨rfl, rfl⟩, by decide⟩⟩,
    ⟨.ofChars ['1', '6'] ⟨rfl, rfl⟩, by decide⟩, ?_⟩
  decide +kernel

end Ipv6

end Util
end OpenrestyGateway
