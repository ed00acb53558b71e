import OpenrestyGateway.LuaValue

/-!
resty/iputils.lua: whether an IPv4 address lies in one of several networks.

Addresses are 32-bit values, kept without the sign that the bit library gives
them. A network is the range from its lowest to its highest address. The cache of
addresses is off, as nothing enables it.
-/
namespace OpenrestyGateway
namespace Iputils

def binMask (i : Nat) : Nat := (2 ^ i - 1) <<< (32 - i)

def binInvertedMask (i : Nat) : Nat := binMask i ^^^ binMask 32

/-- The table bin_masks is filled for the texts of the numbers up to 32. -/
def maskIndex (mask : List Char) : Option Nat :=
  (List.range 33).find? (fun i => (toString i).toList == mask)

def splitOctets (input : List Char) : Option (List (List Char)) :=
  let octs := input.splitOn '.'
  if octs.length = 4 then some octs else none

/-- An octet that is no whole number is rounded by lshift. -/
def binOctet (octet : List Char) : Option Nat :=
  match tonumber (String.ofList octet) with
  | some q => if q < 0 ∨ 255 < q then none else some (roundHalfEven q)
  | none => none

/-- The loop over the octets, from the `i`-th on. -/
def addOctets (i binIp : Nat) : List (List Char) → Option Nat
  | [] => some binIp
  | octet :: octets =>
      match binOctet octet with
      | none => none
      | some bin => addOctets (i + 1) ((bin <<< (8 * (4 - i))) ||| binIp) octets

def ip2bin (ip : List Char) : Option Nat := (splitOctets ip).bind (addOctets 1 0)

def splitCidr (input : List Char) : List Char × Option (List Char) :=
  let net := input.takeWhile (fun c => c != '/')
  match input.dropWhile (fun c => c != '/') with
  | [] => (net, none)
  | _ :: mask => (net, some mask)

/-- nil for an invalid text; a number that the tables of masks do not have under
the very text is handed to band as nil. -/
def parseCidr (cidr : String) : Except LuaError (Option (Nat × Nat)) :=
  let (net, mask) := splitCidr cidr.toList
  let mask := mask.getD ['3', '2']
  match tonumber (String.ofList mask) with
  | none => .ok none
  | some maskNum =>
      if 32 < maskNum ∨ maskNum < 0 then .ok none
      else
        match ip2bin net with
        | none => .ok none
        | some binNet =>
            match maskIndex mask with
            | none => .error (.badArgument "band" .nil)
            | some i =>
                let lower := binNet &&& binMask i
                .ok (some (lower, lower ||| binInvertedMask i))

def parseCidrs : List String → Except LuaError (List (Nat × Nat))
  | [] => .ok []
  | cidr :: cidrs => do
      let range ← parseCidr cidr
      let out ← parseCidrs cidrs
      return range.toList ++ out

/-- nil counts as false. -/
def ipInCidrs (ip : String) (cidrs : List (Nat × Nat)) : Bool :=
  match ip2bin ip.toList with
  | none => false
  | some binIp => cidrs.any (fun cidr => decide (cidr.1 ≤ binIp ∧ binIp ≤ cidr.2))

/-! ### Networks -/

/-- The address of a network and the length of its prefix. -/
def network (cidr : String) : Option (Nat × Nat) :=
  match ip2bin (splitCidr cidr.toList).1,
    maskIndex ((splitCidr cidr.toList).2.getD ['3', '2']) with
  | some net, some i => some (net, i)
  | _, _ => none

/-- An address lies in a network if it has the network's prefix. -/
def InNetwork (ip cidr : String) : Prop :=
  ∃ n net i, ip2bin ip.toList = some n ∧ network cidr = some (net, i) ∧
    n / 2 ^ (32 - i) = net / 2 ^ (32 - i)

theorem maskIndex_le {mask : List Char} {i : Nat} (h : maskIndex mask = some i) : i ≤ 32 := by
  have hmem := List.mem_of_find?_eq_some h
  rw [List.mem_range] at hmem
  omega

theorem binInvertedMask_eq : ∀ i, i ≤ 32 → binInvertedMask i = 2 ^ (32 - i) - 1 := by
  decide

theorem roundHalfEven_le {q : ℚ} {m : Nat} (h0 : 0 ≤ q) (hq : q ≤ m) :
    roundHalfEven q ≤ m := by
  have hfloor : (q.floor.toNat : ℚ) = q.floor := by
    have h : (q.floor.toNat : Int) = q.floor := Int.toNat_of_nonneg (Int.floor_nonneg.mpr h0)
    exact_mod_cast h
  have hle : q.floor.toNat ≤ m := by
    have h : ((q.floor.toNat : Nat) : ℚ) ≤ m := by
      rw [hfloor]
      exact (Int.floor_le q).trans hq
    exact_mod_cast h
  rcases hle.lt_or_eq with hlt | heq
  · simp only [roundHalfEven]
    split
    · exact hle
    · split
      · exact hlt
      · split
        · exact hle
        · exact hlt
  · -- the rounded number is whole
    have hsmall : q - q.floor.toNat < 1 / 2 := by
      rw [heq]
      linarith
    simp only [roundHalfEven, if_pos hsmall]
    exact hle

theorem binOctet_lt {octet : List Char} {n : Nat} (h : binOctet octet = some n) :
    n < 2 ^ 8 := by
  simp only [binOctet] at h
  split at h
  · rename_i q _
    split at h
    · cases h
    · rename_i hrange
      cases h
      obtain ⟨h0, h255⟩ := not_or.mp hrange
      have hle := roundHalfEven_le (m := 255) (not_lt.mp h0) (by exact_mod_cast not_lt.mp h255)
      omega
  · cases h

theorem addOctets_lt {octets : List (List Char)} {i binIp n : Nat} (hi : 0 < i)
    (hbin : binIp < 2 ^ 32) (h : addOctets i binIp octets = some n) : n < 2 ^ 32 := by
  induction octets generalizing i binIp with
  | nil =>
      cases h
      exact hbin
  | cons octet octets ih =>
      simp only [addOctets] at h
      cases ho : binOctet octet with
      | none => simp [ho] at h
      | some bin =>
          rw [ho] at h
          refine ih (by omega) (Nat.or_lt_two_pow ?_ hbin) h
          rw [Nat.shiftLeft_eq]
          calc bin * 2 ^ (8 * (4 - i)) < 2 ^ 8 * 2 ^ (8 * (4 - i)) :=
                Nat.mul_lt_mul_of_pos_right (binOctet_lt ho) (Nat.two_pow_pos _)
            _ = 2 ^ (8 + 8 * (4 - i)) := (Nat.pow_add ..).symm
            _ ≤ 2 ^ 32 := Nat.pow_le_pow_right (by omega) (by omega)

theorem ip2bin_lt {ip : List Char} {n : Nat} (h : ip2bin ip = some n) : n < 2 ^ 32 := by
  obtain ⟨octets, -, ho⟩ := Option.bind_eq_some_iff.mp h
  exact addOctets_lt (by omega) (by norm_num) ho

theorem lower_eq {net i : Nat} (hnet : net < 2 ^ 32) (hi : i ≤ 32) :
    net &&& binMask i = net / 2 ^ (32 - i) * 2 ^ (32 - i) := by
  rw [← Nat.shiftRight_eq_div_pow, ← Nat.shiftLeft_eq]
  apply Nat.eq_of_testBit_eq
  intro j
  simp only [binMask, Nat.testBit_and, Nat.testBit_shiftLeft, Nat.testBit_two_pow_sub_one,
    Nat.testBit_shiftRight]
  by_cases hj : 32 - i ≤ j
  · by_cases hlt : j < 32
    · have hk : j - (32 - i) < i := by omega
      simp [hj, hk]
    · have hzero : net.testBit j = false :=
        Nat.testBit_lt_two_pow (lt_of_lt_of_le hnet (Nat.pow_le_pow_right (by omega) (by omega)))
      simp [hj, hzero]
  · simp [hj]

theorem upper_eq {net i : Nat} (hnet : net < 2 ^ 32) (hi : i ≤ 32) :
    (net &&& binMask i) ||| binInvertedMask i =
      net / 2 ^ (32 - i) * 2 ^ (32 - i) + (2 ^ (32 - i) - 1) := by
  have hlt : 2 ^ (32 - i) - 1 < 2 ^ (32 - i) := Nat.sub_one_lt (Nat.two_pow_pos _).ne'
  rw [lower_eq hnet hi, binInvertedMask_eq i hi, Nat.mul_comm,
    ← Nat.two_pow_add_eq_or_of_lt hlt]

/-- The range of a network holds the addresses with its prefix. -/
theorem mem_range_iff {net i n : Nat} (hnet : net < 2 ^ 32) (hi : i ≤ 32) :
    (net &&& binMask i ≤ n ∧ n ≤ (net &&& binMask i) ||| binInvertedMask i) ↔
      n / 2 ^ (32 - i) = net / 2 ^ (32 - i) := by
  rw [upper_eq hnet hi, lower_eq hnet hi, Nat.div_eq_iff (Nat.two_pow_pos _)]
  have hpos := Nat.two_pow_pos (32 - i)
  omega

theorem maskIndex_text {mask : List Char} {i : Nat} (h : maskIndex mask = some i) :
    mask = (toString i).toList ∧ i < 33 := by
  have hmem := List.mem_of_find?_eq_some h
  have htext := List.find?_some h
  exact ⟨(beq_iff_eq.mp htext).symm, List.mem_range.mp hmem⟩

theorem tonumber_mask : ∀ i : Nat, i < 33 → tonumber (toString i) = some (i : ℚ) := by
  decide +kernel

theorem network_eq_some {cidr : String} {net i : Nat} :
    network cidr = some (net, i) ↔ ip2bin (splitCidr cidr.toList).1 = some net ∧
      maskIndex ((splitCidr cidr.toList).2.getD ['3', '2']) = some i := by
  simp only [network]
  cases ip2bin (splitCidr cidr.toList).1 with
  | none => simp
  | some net' =>
      cases maskIndex ((splitCidr cidr.toList).2.getD ['3', '2']) with
      | none => simp
      | some i' => simp

/-- Parsing succeeds on the texts of networks. -/
theorem parseCidr_eq {cidr : String} {range : Option (Nat × Nat)}
    (h : parseCidr cidr = .ok range) :
    range = (network cidr).map (fun w =>
      (w.1 &&& binMask w.2, (w.1 &&& binMask w.2) ||| binInvertedMask w.2)) := by
  simp only [parseCidr] at h
  cases hmask : maskIndex ((splitCidr cidr.toList).2.getD ['3', '2']) with
  | none =>
      have hnone : network cidr = none := by
        simp only [network, hmask]
        cases ip2bin (splitCidr cidr.toList).1 <;> rfl
      rw [hnone]
      rw [hmask] at h
      split at h
      · exact (Except.ok.inj h).symm
      · split at h
        · exact (Except.ok.inj h).symm
        · split at h
          · exact (Except.ok.inj h).symm
          · cases h
  | some i =>
      obtain ⟨htext, hi⟩ := maskIndex_text hmask
      have hnum := tonumber_mask i hi
      have hi32 : ¬ ((32 : ℚ) < i ∨ (i : ℚ) < 0) := by
        have h32 : (i : ℚ) ≤ 32 := by exact_mod_cast (by omega : i ≤ 32)
        have h0 : (0 : ℚ) ≤ i := Nat.cast_nonneg i
        exact not_or.mpr ⟨not_lt.mpr h32, not_lt.mpr h0⟩
      rw [hmask, htext, String.ofList_toList, hnum] at h
      simp only [if_neg hi32] at h
      simp only [network, hmask]
      cases hnet : ip2bin (splitCidr cidr.toList).1 with
      | none =>
          rw [hnet] at h
          exact (Except.ok.inj h).symm
      | some net =>
          rw [hnet] at h
          exact (Except.ok.inj h).symm

theorem ipInCidr_iff {ip cidr : String} {range : Option (Nat × Nat)}
    (h : parseCidr cidr = .ok range) :
    ipInCidrs ip range.toList = true ↔ InNetwork ip cidr := by
  rw [parseCidr_eq h]
  cases hip : ip2bin ip.toList with
  | none => simp [ipInCidrs, InNetwork, hip]
  | some n =>
      cases hw : network cidr with
      | none => simp [ipInCidrs, InNetwork, hip, hw]
      | some w =>
          obtain ⟨hnet, hi⟩ := network_eq_some.mp hw
          have hmem := mem_range_iff (n := n) (ip2bin_lt hnet) (maskIndex_le hi)
          simp only [ipInCidrs, hip, Option.map_some, Option.toList_some, List.any_cons,
            List.any_nil, Bool.or_false, decide_eq_true_eq, hmem, InNetwork, hw,
            Option.some.injEq]
          constructor
          · intro hprefix
            exact ⟨n, w.1, w.2, rfl, rfl, hprefix⟩
          · rintro ⟨_, _, _, rfl, rfl, hprefix⟩
            exact hprefix

theorem ipInCidrs_append (ip : String) (ranges ranges' : List (Nat × Nat)) :
    ipInCidrs ip (ranges ++ ranges') = true ↔
      ipInCidrs ip ranges = true ∨ ipInCidrs ip ranges' = true := by
  simp only [ipInCidrs]
  cases ip2bin ip.toList with
  | none => simp
  | some n => simp only [List.any_append, Bool.or_eq_true]

/-- Where every network of a list can be parsed, an address is found in the list
exactly if it lies in one of them. -/
theorem ipInCidrs_iff {ip : String} {cidrs : List String} {ranges : List (Nat × Nat)}
    (h : parseCidrs cidrs = .ok ranges) :
    ipInCidrs ip ranges = true ↔ ∃ cidr ∈ cidrs, InNetwork ip cidr := by
  induction cidrs generalizing ranges with
  | nil =>
      cases h
      simp only [ipInCidrs, List.any_nil, List.not_mem_nil, false_and, exists_false, iff_false,
        Bool.not_eq_true]
      cases ip2bin ip.toList <;> rfl
  | cons cidr cidrs ih =>
      obtain ⟨range, hrange, h⟩ := LuaError.bind_eq_ok h
      obtain ⟨out, hout, h⟩ := LuaError.bind_eq_ok h
      cases h
      rw [List.exists_mem_cons_iff, ← ipInCidr_iff hrange, ← ih hout]
      exact ipInCidrs_append ip range.toList out

/-! ### Texts that raise -/

/-- The text of an address and a length up to 32 that is not written as the tables of
masks have it. -/
structure OddMask (cidr : String) : Prop where
  length : ∃ q : ℚ, tonumber (String.ofList ((splitCidr cidr.toList).2.getD ['3', '2'])) = some q ∧
    0 ≤ q ∧ q ≤ 32
  address : (ip2bin (splitCidr cidr.toList).1).isSome = true
  unknown : maskIndex ((splitCidr cidr.toList).2.getD ['3', '2']) = none

theorem parseCidr_ok (cidr : String) : (∃ range, parseCidr cidr = .ok range) ↔ ¬ OddMask cidr := by
  simp only [parseCidr]
  cases hnum : tonumber (String.ofList ((splitCidr cidr.toList).2.getD ['3', '2'])) with
  | none =>
      refine iff_of_true ⟨none, rfl⟩ (fun h => ?_)
      obtain ⟨q, hq, -⟩ := h.length
      cases hnum.symm.trans hq
  | some q =>
      by_cases hq : 32 < q ∨ q < 0
      · refine iff_of_true ⟨none, if_pos hq⟩ (fun h => ?_)
        obtain ⟨q', hq', h0, h32⟩ := h.length
        cases hnum.symm.trans hq'
        obtain hq | hq := hq
        · exact absurd hq (not_lt.mpr h32)
        · exact absurd hq (not_lt.mpr h0)
      · simp only [if_neg hq]
        obtain ⟨h32, h0⟩ := not_or.mp hq
        cases hnet : ip2bin (splitCidr cidr.toList).1 with
        | none =>
            refine iff_of_true ⟨none, rfl⟩ (fun h => ?_)
            have haddress := h.address
            rw [hnet] at haddress
            cases haddress
        | some net =>
            cases hmask : maskIndex ((splitCidr cidr.toList).2.getD ['3', '2']) with
            | none =>
                have hodd : OddMask cidr :=
                  ⟨⟨q, hnum, not_lt.mp h0, not_lt.mp h32⟩, by rw [hnet]; rfl, hmask⟩
                exact iff_of_false (LuaError.error_ne_ok _) (fun h => h hodd)
            | some i =>
                refine iff_of_true ⟨_, rfl⟩ (fun h => ?_)
                cases hmask.symm.trans h.unknown

theorem parseCidrs_ok (cidrs : List String) :
    (∃ ranges, parseCidrs cidrs = .ok ranges) ↔ ∀ cidr ∈ cidrs, ¬ OddMask cidr := by
  induction cidrs with
  | nil => exact iff_of_true ⟨[], rfl⟩ (List.forall_mem_nil _)
  | cons cidr cidrs ih =>
      rw [List.forall_mem_cons, ← ih, ← parseCidr_ok]
      constructor
      · intro h
        obtain ⟨ranges, h⟩ := h
        obtain ⟨range, hrange, h⟩ := LuaError.bind_eq_ok h
        obtain ⟨out, hout, -⟩ := LuaError.bind_eq_ok h
        exact ⟨⟨range, hrange⟩, out, hout⟩
      · intro h
        obtain ⟨⟨range, hrange⟩, out, hout⟩ := h
        refine ⟨range.toList ++ out, ?_⟩
        simp only [parseCidrs, hrange, hout]
        rfl

end Iputils
end OpenrestyGateway
