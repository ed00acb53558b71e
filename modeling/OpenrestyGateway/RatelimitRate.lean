import OpenrestyGateway.Ratelimit

/-!
The rate of a limiter against the rate that its text asks for.

The positive number is scaled to thousandths of a request per second and rounded
down only after it has been checked, so a slow rate becomes zero.
-/
namespace OpenrestyGateway
namespace RateLim

/-- A rate that incoming can divide by, not above the configured one (in thousandths of
a request per second). -/
structure UsableRate (lim : RateLim) (configured : ℚ) : Prop where
  atLeastOne : 1 ≤ lim.rate
  atMost : lim.rate ≤ configured
  delay : ∀ excess, ∃ seconds, Delay.divide excess lim.rate = .finite seconds

theorem divide_finite_iff (excess rate : ℚ) :
    (∃ seconds, Delay.divide excess rate = .finite seconds) ↔ rate ≠ 0 := by
  simp only [Delay.divide]
  by_cases h : rate = 0
  · by_cases he : excess = 0
    · simp [h, he]
    · simp [h, he]
  · simp [h]

end RateLim
end OpenrestyGateway
