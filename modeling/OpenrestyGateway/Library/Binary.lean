import Mathlib.Data.Nat.Digits.Lemmas
import Mathlib.Data.Nat.Size

/-!
The binary digits of a number to a given width, most significant first.

Writing numbers below `2 ^ v` one after the other is writing one number, and the
first digits of a number are those of its upper part.
-/
namespace Binary

def digits : Nat → Nat → List Bool
  | 0, _ => []
  | w + 1, n => digits w (n / 2) ++ [decide (n % 2 = 1)]

@[simp] theorem length_digits (w n : Nat) : (digits w n).length = w := by
  induction w generalizing n with
  | zero => rfl
  | succ w ih => simp [digits, ih]

theorem digits_add (w v n : Nat) :
    digits (w + v) n = digits w (n / 2 ^ v) ++ digits v n := by
  induction v generalizing n with
  | zero => simp [digits]
  | succ v ih =>
      have hdiv : n / 2 / 2 ^ v = n / 2 ^ (v + 1) := by
        rw [Nat.div_div_eq_div_mul, pow_succ']
      calc digits (w + (v + 1)) n
          = digits (w + v) (n / 2) ++ [decide (n % 2 = 1)] := rfl
        _ = digits w (n / 2 ^ (v + 1)) ++ digits v (n / 2) ++ [decide (n % 2 = 1)] := by
            rw [ih, hdiv]
        _ = digits w (n / 2 ^ (v + 1)) ++ digits (v + 1) n := List.append_assoc ..

theorem digits_mod (w n : Nat) : digits w (n % 2 ^ w) = digits w n := by
  induction w generalizing n with
  | zero => rfl
  | succ w ih =>
      have hdiv : n % 2 ^ (w + 1) / 2 = n / 2 % 2 ^ w := by
        rw [pow_succ', Nat.mod_mul_right_div_self]
      have hmod : n % 2 ^ (w + 1) % 2 = n % 2 :=
        Nat.mod_mod_of_dvd n (dvd_pow_self 2 (Nat.succ_ne_zero w))
      simp only [digits, hdiv, hmod, ih]

/-- Two numbers one after the other. -/
theorem digits_append (w v x : Nat) {y : Nat} (h : y < 2 ^ v) :
    digits (w + v) (x * 2 ^ v + y) = digits w x ++ digits v y := by
  have hdiv : (x * 2 ^ v + y) / 2 ^ v = x := by
    rw [Nat.mul_comm, Nat.mul_add_div (Nat.two_pow_pos v), Nat.div_eq_of_lt h, Nat.add_zero]
  have hmod : (x * 2 ^ v + y) % 2 ^ v = y := by
    rw [Nat.mul_comm, Nat.mul_add_mod, Nat.mod_eq_of_lt h]
  rw [digits_add, hdiv, ← digits_mod v (x * 2 ^ v + y), hmod]

theorem take_digits {m w : Nat} (h : m ≤ w) (n : Nat) :
    (digits w n).take m = digits m (n / 2 ^ (w - m)) := by
  obtain ⟨v, rfl⟩ := Nat.exists_eq_add_of_le h
  rw [digits_add, Nat.add_sub_cancel_left]
  exact List.take_left' (length_digits m _)

theorem digits_inj {w x y : Nat} (hx : x < 2 ^ w) (hy : y < 2 ^ w) :
    digits w x = digits w y ↔ x = y := by
  refine ⟨fun h => ?_, fun h => h ▸ rfl⟩
  induction w generalizing x y with
  | zero => omega
  | succ w ih =>
      simp only [digits] at h
      obtain ⟨hupper, hlast⟩ := List.append_inj' h rfl
      have hhalf := ih (by omega) (by omega) hupper
      have hbit : (x % 2 = 1) ↔ (y % 2 = 1) := by
        simpa using hlast
      omega

theorem digits_zero (w : Nat) : digits w 0 = List.replicate w false := by
  induction w with
  | zero => rfl
  | succ w ih =>
      simp only [digits, Nat.zero_div, ih, List.replicate_succ']
      rfl

/-- A wider number is padded with zeros. -/
theorem digits_pad (k : Nat) {w n : Nat} (h : n < 2 ^ w) :
    digits (k + w) n = List.replicate k false ++ digits w n := by
  rw [digits_add, Nat.div_eq_of_lt h, digits_zero]

theorem digits_size (n : Nat) :
    digits n.size n = (Nat.digits 2 n).reverse.map (fun d => decide (d = 1)) := by
  rw [← Nat.size_eq_bits_len, Nat.digits_two_eq_bits]
  induction n using Nat.binaryRec' with
  | zero => rfl
  | bit b n hb ih =>
      rw [Nat.bits_append_bit n b hb]
      have hdiv : Nat.bit b n / 2 = n := Nat.bit_div_two b n
      have hmod : Nat.bit b n % 2 = b.toNat := Nat.bit_mod_two b n
      simp only [List.length_cons, digits, hdiv, hmod, ih, List.map_cons, List.reverse_cons,
        List.map_append, List.map_nil]
      cases b <;> rfl

end Binary
