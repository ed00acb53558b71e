import OpenrestyGateway.Iputils
import Mathlib.Data.BitVec

/-!
resty/healthcheck.lua: the counters of a target and what the reports make of them.

One number of the dict holds four counters of 8 bits. A failure is counted where the target
is not unhealthy, a success where it is not healthy.
-/
namespace OpenrestyGateway
namespace Healthcheck

inductive Health where
  | healthy
  | unhealthy
  | mostlyHealthy
  | mostlyUnhealthy
  deriving DecidableEq

inductive Ctr where
  | success
  | http
  | tcp
  | timeout
  deriving DecidableEq

def Ctr.unit : Ctr → Nat
  | .success => 0x00000001
  | .http => 0x00000100
  | .tcp => 0x00010000
  | .timeout => 0x01000000

def maskFailure : Nat := 0xffffff00

def maskSuccess : Nat := 0x000000ff

/-! ### The bit library -/

/-- A number that is not whole is rounded to the nearest, halves to even. -/
def roundEven (q : ℚ) : Int :=
  let r := q - q.floor
  if r < 1 / 2 then q.floor
  else if 1 / 2 < r then q.floor + 1
  else if q.floor % 2 = 0 then q.floor else q.floor + 1

/-- bit.band: the result is a signed number of 32 bits. -/
def band (q : ℚ) (mask : Nat) : Int :=
  (BitVec.ofInt 32 (roundEven q) &&& BitVec.ofNat 32 mask).toInt

def ctrGet (multictr : Int) (idx : Nat) : Int := band ((multictr : ℚ) / idx) 0xff

/-! ### The configuration -/

inductive CheckType where
  | http
  | https
  | tcp
  deriving DecidableEq

structure HealthyCheck where
  httpStatuses : List ℚ
  successes : ℚ

structure UnhealthyCheck where
  httpStatuses : List ℚ
  tcpFailures : ℚ
  timeouts : ℚ
  httpFailures : ℚ

structure Check where
  type : CheckType
  healthy : HealthyCheck
  unhealthy : UnhealthyCheck

structure Checks where
  active : Check
  passive : Check

inductive Side where
  | active
  | passive
  deriving DecidableEq

def Checks.get (checks : Checks) : Side → Check
  | .active => checks.active
  | .passive => checks.passive

def getDefaults : Checks where
  active :=
    { type := .http
      healthy := { httpStatuses := [200, 302], successes := 2 }
      unhealthy :=
        { httpStatuses := [429, 404, 500, 501, 502, 503, 504, 505]
          tcpFailures := 2, timeouts := 3, httpFailures := 5 } }
  passive :=
    { type := .http
      healthy :=
        { httpStatuses := [200, 201, 202, 203, 204, 205, 206, 207, 208, 226,
            300, 301, 302, 303, 304, 305, 306, 307, 308]
          successes := 5 }
      unhealthy :=
        { httpStatuses := [429, 500, 503], tcpFailures := 2, timeouts := 7, httpFailures := 5 } }

/-! ### The reports -/

/-- What a report is worth: the arguments of incr_counter. -/
structure Mark where
  report : Health
  limit : ℚ
  ctr : Ctr
  deriving DecidableEq

def reportFailure (checks : Checks) (check : Side) : Mark :=
  let checks := checks.get check
  if checks.type = .tcp then ⟨.unhealthy, checks.unhealthy.tcpFailures, .tcp⟩
  else ⟨.unhealthy, checks.unhealthy.httpFailures, .http⟩

def reportSuccess (checks : Checks) (check : Side) : Mark :=
  ⟨.healthy, (checks.get check).healthy.successes, .success⟩

/-- nil where the status is in neither list. -/
def reportHttpStatus (checks : Checks) (httpStatus : Option ℚ) (check : Side) : Option Mark :=
  let httpStatus := httpStatus.getD 0
  let checks := checks.get check
  if httpStatus ∈ checks.healthy.httpStatuses then
    some ⟨.healthy, checks.healthy.successes, .success⟩
  else if httpStatus ∈ checks.unhealthy.httpStatuses ∨ httpStatus = 0 then
    some ⟨.unhealthy, checks.unhealthy.httpFailures, .http⟩
  else none

def reportTcpFailure (checks : Checks) (check : Side) : Mark :=
  ⟨.unhealthy, (checks.get check).unhealthy.tcpFailures, .tcp⟩

def reportTimeout (checks : Checks) (check : Side) : Mark :=
  ⟨.unhealthy, (checks.get check).unhealthy.timeouts, .timeout⟩

inductive Report where
  | failure (check : Side)
  | success (check : Side)
  | httpStatus (status : Option ℚ) (check : Side)
  | tcpFailure (check : Side)
  | timeout (check : Side)

def Report.mark (checks : Checks) : Report → Option Mark
  | .failure check => some (reportFailure checks check)
  | .success check => some (reportSuccess checks check)
  | .httpStatus status check => reportHttpStatus checks status check
  | .tcpFailure check => some (reportTcpFailure checks check)
  | .timeout check => some (reportTimeout checks check)

/-! ### The counters -/

/-- What incr_counter does under the lock of the target: the new counters, and the health
that is stored and posted if it is another. -/
def incrLocked (currentHealth : Health) (m : Mark) (counter : Int) : Int × Option Health :=
  let multictr := counter + m.ctr.unit
  let ctr := ctrGet multictr m.ctr.unit
  let newMultictr :=
    if m.ctr = .success then band multictr maskSuccess else band multictr maskFailure
  let newHealth :=
    if m.limit ≤ ctr then some m.report
    else if currentHealth = .healthy ∧ 0 < band newMultictr maskFailure then
      some .mostlyHealthy
    else if currentHealth = .unhealthy ∧ 0 < band newMultictr maskSuccess then
      some .mostlyUnhealthy
    else none
  (newMultictr, if newHealth = some currentHealth then none else newHealth)

/-- A target whose health is the one that was posted last. A counter that is missing in the
dict counts from 0. -/
structure Target where
  health : Health
  counter : Option Int

namespace Target

/-- The report is not counted. -/
def ignores (t : Target) (m : Mark) : Prop := m.limit = 0 ∨ m.report = t.health

instance (t : Target) (m : Mark) : Decidable (t.ignores m) :=
  inferInstanceAs (Decidable (_ ∨ _))

def incrCounter (t : Target) (m : Mark) : Target :=
  if t.ignores m then t
  else
    let r := incrLocked t.health m (t.counter.getD 0)
    ⟨r.2.getD t.health, some r.1⟩

def setTargetStatus (isHealthy : Bool) : Target :=
  ⟨if isHealthy then .healthy else .unhealthy, some 0⟩

/-- A target that is new, `is_healthy` in add_target. -/
def added (isHealthy : Bool) : Target := ⟨if isHealthy then .healthy else .unhealthy, none⟩

end Target

inductive Command where
  | report (r : Report)
  | setStatus (isHealthy : Bool)

def Target.step (checks : Checks) (t : Target) : Command → Target
  | .report r =>
      match r.mark checks with
      | none => t
      | some m => t.incrCounter m
  | .setStatus isHealthy => Target.setTargetStatus isHealthy

def Target.run (checks : Checks) (t : Target) (cs : List Command) : Target :=
  cs.foldl (Target.step checks) t

/-! ### What the bit library makes of the counters -/

theorem roundEven_intCast (n : Int) : roundEven n = n := by
  simp [roundEven, Rat.floor_intCast]

/-- What rounding adds to a quotient. -/
def carry (n u : Nat) : Nat :=
  if 2 * (n % u) < u then 0
  else if u < 2 * (n % u) then 1
  else if n / u % 2 = 0 then 0 else 1

theorem roundEven_div (n : Nat) {u : Nat} (hu : 0 < u) :
    roundEven ((n : ℚ) / u) = ((n / u + carry n u : Nat) : Int) := by
  have hpos : (0 : ℚ) < u := by exact_mod_cast hu
  have hfloor : ((n : ℚ) / u).floor = ((n / u : Nat) : Int) := by
    exact (Rat.floor_natCast_div_natCast n u).trans (Int.natCast_div n u).symm
  have hrest : (n : ℚ) / u - (((n / u : Nat) : Int) : ℚ) = ((n % u : Nat) : ℚ) / u := by
    have hsplit : (n : ℚ) = u * (n / u : Nat) + (n % u : Nat) := by
      exact_mod_cast (Nat.div_add_mod n u).symm
    rw [eq_div_iff hpos.ne', sub_mul, div_mul_cancel₀ _ hpos.ne', Int.cast_natCast]
    linarith
  have hlow : ((n % u : Nat) : ℚ) / u < 1 / 2 ↔ 2 * (n % u) < u := by
    rw [div_lt_div_iff₀ hpos two_pos, one_mul]
    rw [mul_comm]
    exact_mod_cast Iff.rfl
  have hhigh : (1 : ℚ) / 2 < ((n % u : Nat) : ℚ) / u ↔ u < 2 * (n % u) := by
    rw [div_lt_div_iff₀ two_pos hpos, one_mul, mul_comm]
    exact_mod_cast Iff.rfl
  simp only [roundEven, hfloor, hrest, hlow, hhigh, carry]
  split
  · simp
  · split
    · simp
    · have heven : ((n / u : Nat) : Int) % 2 = 0 ↔ n / u % 2 = 0 := by omega
      simp only [heven]
      split <;> simp

theorem toInt_and_byte (n : Int) :
    (BitVec.ofInt 32 n &&& BitVec.ofNat 32 0xff).toInt = n % 256 := by
  have hnat : (BitVec.ofInt 32 n &&& BitVec.ofNat 32 0xff).toNat = (n % 2 ^ 32).toNat % 256 := by
    rw [BitVec.toNat_and, BitVec.toNat_ofInt, BitVec.toNat_ofNat]
    exact Nat.and_two_pow_sub_one_eq_mod _ 8
  rw [BitVec.toInt_eq_toNat_of_lt (by omega), hnat]
  omega

theorem roundEven_sub_even (q : ℚ) (k : Int) :
    roundEven (q - (2 * k : Int)) = roundEven q - 2 * k := by
  have hfloor : (q - (2 * k : Int)).floor = q.floor - 2 * k := Int.floor_sub_intCast q (2 * k)
  have hrest : q - (2 * k : Int) - ((q.floor - 2 * k : Int) : ℚ) = q - q.floor := by
    push_cast
    ring
  have hparity : (q.floor - 2 * k) % 2 = 0 ↔ q.floor % 2 = 0 := by omega
  simp only [roundEven, hfloor, hrest, hparity]
  split
  · rfl
  · split
    · omega
    · split <;> omega

/-! ### Numbers of 32 bits -/

/-- A counter as the dict holds it: bit.band gives signed numbers. -/
def stored (n : Nat) : Int := (BitVec.ofNat 32 n).toInt

theorem ofInt_stored_add (n u : Nat) :
    BitVec.ofInt 32 (stored n + u) = BitVec.ofNat 32 (n + u) := by
  rw [BitVec.ofInt_add, stored, BitVec.ofInt_toInt, BitVec.ofInt_natCast, BitVec.ofNat_add]

theorem band_stored (n u mask : Nat) :
    band ((stored n + u : Int) : ℚ) mask =
      (BitVec.ofNat 32 (n + u) &&& BitVec.ofNat 32 mask).toInt := by
  rw [band, roundEven_intCast, ofInt_stored_add]

theorem and_success (n : Nat) :
    BitVec.ofNat 32 n &&& BitVec.ofNat 32 maskSuccess = BitVec.ofNat 32 (n % 256) := by
  apply BitVec.eq_of_toNat_eq
  have hand : n % 2 ^ 32 &&& maskSuccess = n % 2 ^ 32 % 256 :=
    Nat.and_two_pow_sub_one_eq_mod _ 8
  rw [BitVec.toNat_and, BitVec.toNat_ofNat, BitVec.toNat_ofNat, BitVec.toNat_ofNat,
    Nat.mod_eq_of_lt (by decide : maskSuccess < 2 ^ 32), hand]
  omega

theorem and_failure {n : Nat} (h : n < 2 ^ 32) :
    BitVec.ofNat 32 n &&& BitVec.ofNat 32 maskFailure = BitVec.ofNat 32 (n / 256 * 256) := by
  apply BitVec.eq_of_toNat_eq
  have hmask : maskFailure = Iputils.binMask 24 := by decide
  rw [BitVec.toNat_and, BitVec.toNat_ofNat, BitVec.toNat_ofNat, BitVec.toNat_ofNat,
    Nat.mod_eq_of_lt h, hmask, Nat.mod_eq_of_lt (by decide : Iputils.binMask 24 < 2 ^ 32),
    Iputils.lower_eq h (by norm_num)]
  exact (Nat.mod_eq_of_lt (lt_of_le_of_lt (Nat.div_mul_le_self n 256) h)).symm

/-- A counter is read with the rounding of what is below it, also where the number is
negative. -/
theorem ctrGet_stored (n u : Nat) (k : Ctr) :
    ctrGet (stored n + u) k.unit = (((n + u) / k.unit + carry (n + u) k.unit) % 256 : Nat) := by
  have hpos : 0 < k.unit := by cases k <;> decide
  obtain ⟨half, hunit, hbyte⟩ : ∃ half : Nat, 2 ^ 32 = k.unit * (2 * half) ∧ half % 128 = 0 :=
    ⟨2 ^ 31 / k.unit, by cases k <;> decide, by cases k <;> decide⟩
  obtain ⟨e, he⟩ : ((2 ^ 32 : Nat) : Int) ∣ stored n - n := by
    rw [stored, BitVec.toInt_ofNat']
    exact Int.dvd_bmod_sub_self
  have hsum : stored n + u = ((n + u : Nat) : Int) + k.unit * (2 * (half * e)) := by
    rw [hunit] at he
    push_cast at he ⊢
    linarith
  have hquot : ((stored n + u : Int) : ℚ) / k.unit =
      ((n + u : Nat) : ℚ) / k.unit - ((2 * -(half * e) : Int) : ℚ) := by
    have hq : (k.unit : ℚ) ≠ 0 := by exact_mod_cast hpos.ne'
    rw [hsum]
    push_cast
    field_simp
    ring
  have hzero : (half * e : Int) % 128 = 0 := by
    rw [Int.mul_emod]
    have hcast : (half : Int) % 128 = 0 := by exact_mod_cast hbyte
    rw [hcast, zero_mul, Int.zero_emod]
  rw [ctrGet, hquot, band, roundEven_sub_even, roundEven_div _ hpos, toInt_and_byte]
  omega

end Healthcheck
end OpenrestyGateway
