import OpenrestyGateway.LuaValue

/-!
Numbers written in decimal digits, and what tonumber reads in them.
-/
namespace OpenrestyGateway

def decimal (ds : List Char) : Nat := ds.foldl (fun n c => n * 10 + (c.toNat - 48)) 0

/-- A number in decimal digits; leading zeros are allowed. -/
structure Digits where
  chars : List Char
  ne_nil : chars ≠ []
  isDigit : ∀ c ∈ chars, c.isDigit = true

def Digits.ofChars (cs : List Char) (h : cs.isEmpty = false ∧ cs.all Char.isDigit = true) :
    Digits :=
  ⟨cs, List.isEmpty_eq_false_iff.mp h.1, List.all_eq_true.mp h.2⟩

def Digits.value (n : Digits) : Nat := decimal n.chars

structure Decimal (bound : Nat) extends Digits where
  le : toDigits.value ≤ bound

theorem digitVal_isDigit {c : Char} (h : c.isDigit = true) :
    digitVal 10 c = some (c.toNat - 48) := by
  have hrange : '0' ≤ c ∧ c ≤ '9' := by
    simpa [Char.isDigit, Char.le_def] using h
  have hle : c.toNat ≤ 57 := hrange.2
  simp only [digitVal, if_pos hrange]
  rw [if_pos (by omega)]

theorem readDigits_eq {ds : List Char} (h : ∀ c ∈ ds, c.isDigit = true) (acc count : Nat) :
    readDigits 10 acc count ds =
      (ds.foldl (fun n c => n * 10 + (c.toNat - 48)) acc, count + ds.length, []) := by
  induction ds generalizing acc count with
  | nil => rfl
  | cons c ds ih =>
      have hc := digitVal_isDigit (h c (List.mem_cons_self ..))
      have hds := ih (fun d hd => h d (List.mem_cons_of_mem c hd))
      simp only [readDigits, hc, hds, List.foldl_cons, List.length_cons]
      congr 2
      omega

theorem not_isSpace {c : Char} (h : c.isDigit = true) : isSpace c = false := by
  have hrange : 48 ≤ c.toNat ∧ c.toNat ≤ 57 := by
    simpa [Char.isDigit, Char.le_def, UInt32.le_iff_toNat_le] using h
  have hne : ∀ d : Char, d.toNat < 48 → (c == d) = false := by
    intro d hd
    refine beq_false_of_ne (fun heq => ?_)
    rw [heq] at hrange
    omega
  have hvt : (c.toNat == 11) = false := beq_false_of_ne (by omega)
  have hff : (c.toNat == 12) = false := beq_false_of_ne (by omega)
  simp only [isSpace, hne ' ' (by decide), hne '\t' (by decide), hne '\n' (by decide),
    hne '\r' (by decide), hvt, hff, Bool.or_false]

section Digits
variable {ds : List Char} (hne : ds ≠ []) (h : ∀ c ∈ ds, c.isDigit = true)
include hne h

theorem readNumber_digits : readNumber 10 'e' 10 ds = some (decimal ds : ℚ) := by
  have hlen : 0 + ds.length + 0 ≠ 0 := by
    have := List.length_pos_iff.mpr hne
    omega
  simp only [readNumber, readDigits_eq h, if_neg hlen]
  simp [decimal]

theorem readUnsigned_digits : readUnsigned ds = some (decimal ds : ℚ) := by
  simp only [readUnsigned]
  split
  · exact absurd (h 'x' (by simp)) (by decide)
  · exact absurd (h 'X' (by simp)) (by decide)
  · exact absurd (h 'b' (by simp)) (by decide)
  · exact absurd (h 'B' (by simp)) (by decide)
  · exact readNumber_digits hne h

theorem tonumber_digits : tonumber (String.ofList ds) = some (decimal ds : ℚ) := by
  have hdrop : ds.dropWhile isSpace = ds := by
    cases ds with
    | nil => rfl
    | cons c ds =>
        rw [List.dropWhile_cons, not_isSpace (h c (List.mem_cons_self ..))]
        rfl
  simp only [tonumber]
  rw [String.toList_ofList, hdrop]
  split
  · exact absurd (h '-' (by simp)) (by decide)
  · exact absurd (h '+' (by simp)) (by decide)
  · exact readUnsigned_digits hne h

end Digits

end OpenrestyGateway
