import OpenrestyGateway.Library.LeakyBucket
import OpenrestyGateway.RatelimitBucket
import Mathlib.Algebra.Order.Floor.Semiring

/-!
How many calls on one key are admitted in a window of time.

A record that disappears forgets the excess it held. That is harmless exactly
where the bucket has drained by then: after the 60 seconds of a record and after
the duration of a ban. For every limiter where it has not, a sequence of calls
goes over the bound.
-/
namespace OpenrestyGateway
open LeakyBucket

namespace Bucket
variable {lim : RateLim}

/-- Every bucket is empty again by the time its record disappears. -/
def Drains (lim : RateLim) : Prop :=
  lim.burst + 1000 ≤ 60 * lim.rate ∧
    (lim.duration = 0 ∨ lim.duration.den ≠ 1 ∨ lim.burst + 1000 ≤ lim.duration * lim.rate)

/-- The bucket accounts for the admissions so far, newest first. -/
def Tracks (lim : RateLim) (adm : List ℚ) (now : ℚ) : Bucket → Prop
  | .empty => ∀ t, now ≤ t → level lim.rate 1000 (t :: adm) ≤ 0
  | .running e last =>
      last ≤ now ∧ e ≤ lim.burst ∧ level lim.rate 1000 adm ≤ e ∧ ∃ rest, adm = last :: rest
  | .banned x since =>
      since ≤ now ∧ 0 < lim.duration ∧ x ≤ lim.burst + 1000 ∧
        level lim.rate 1000 (since :: adm) ≤ x

/-- No admission has lifted the level above the burst. -/
def WithinBurst (lim : RateLim) (adm : List ℚ) : Prop :=
  ∀ l, l <:+ adm → level lim.rate 1000 l ≤ lim.burst

theorem settle_cases (lim : RateLim) (t : ℚ) (b : Bucket) :
    b.settle lim t = .empty ∨ b.settle lim t = b := by
  cases b with
  | empty => exact .inl rfl
  | running e last =>
      simp only [settle]
      split
      · exact .inr rfl
      · exact .inl rfl
  | banned x since =>
      simp only [settle]
      split
      · exact .inl rfl
      · exact .inr rfl

theorem tracks_settle (ha : lim.Accepted) (hd : Drains lim) {adm : List ℚ} {now t : ℚ}
    {b : Bucket} (h : Tracks lim adm now b) (ht : now ≤ t) :
    Tracks lim adm t (b.settle lim t) := by
  cases b with
  | empty => exact fun u hu => h u (ht.trans hu)
  | running e last =>
      obtain ⟨hlast, he, hlevel, rest, rfl⟩ := h
      simp only [settle]
      split
      · exact ⟨hlast.trans ht, he, hlevel, rest, rfl⟩
      · rename_i hdead
        intro u hu
        have hleak : 60 * lim.rate ≤ lim.rate * (u - last) := by
          rw [mul_comm]
          exact mul_le_mul_of_nonneg_left (by linarith) ha.rate_nonneg
        refine max_le le_rfl ?_
        have hdrain := hd.1
        linarith
  | banned x since =>
      obtain ⟨hsince, hdur, hx, hlevel⟩ := h
      simp only [settle]
      split
      · rename_i hdead
        intro u hu
        refine le_trans (level_cons_later since u adm) (max_le le_rfl ?_)
        rcases hd.2 with hzero | hden | hdrain
        · exact absurd hzero hdur.ne'
        · exact absurd hdead.1 hden
        · have hleak : lim.duration * lim.rate ≤ lim.rate * (u - since) := by
            rw [mul_comm]
            exact mul_le_mul_of_nonneg_left (by linarith [hdead.2]) ha.rate_nonneg
          linarith
      · exact ⟨hsince.trans ht, hdur, hx, hlevel⟩

theorem within_cons {adm : List ℚ} {t : ℚ} (h : WithinBurst lim adm)
    (ht : level lim.rate 1000 (t :: adm) ≤ lim.burst) : WithinBurst lim (t :: adm) := by
  intro l hl
  rcases List.suffix_cons_iff.mp hl with rfl | hl
  · exact ht
  · exact h l hl

/-- A call keeps the account, and admits only within the burst. -/
theorem tracks_call (ha : lim.Accepted) {adm : List ℚ} {t : ℚ} {b : Bucket}
    (h : Tracks lim adm t (b.settle lim t)) (hin : WithinBurst lim adm) :
    Tracks lim (if (b.call lim t).1 then t :: adm else adm) t (b.call lim t).2 ∧
      WithinBurst lim (if (b.call lim t).1 then t :: adm else adm) := by
  have hb := settle_cases lim t b
  cases hs : b.settle lim t with
  | empty =>
      rw [hs] at h
      have hlevel := h t le_rfl
      simp only [call, hs, if_true]
      exact ⟨⟨le_rfl, ha.burst_nonneg, hlevel, adm, rfl⟩,
        within_cons hin (hlevel.trans ha.burst_nonneg)⟩
  | running e last =>
      obtain rfl : b = .running e last := by
        rcases hb with hb | hb
        · cases hs.symm.trans hb
        · exact hb.symm.trans hs
      rw [hs] at h
      obtain ⟨hlast, he, hlevel, rest, rfl⟩ := h
      have habs : |t - last| = t - last := abs_of_nonneg (sub_nonneg.mpr hlast)
      have hexcess : level lim.rate 1000 (t :: last :: rest) ≤ excessAt lim e last t := by
        simp only [excessAt, habs]
        exact max_le_max le_rfl (by linarith)
      by_cases hover : lim.burst < excessAt lim e last t
      · simp only [call, hs, if_pos hover, Bool.false_eq_true, if_false]
        refine ⟨?_, hin⟩
        split
        · rename_i hdur
          have hleak : 0 ≤ lim.rate * (t - last) :=
            mul_nonneg ha.rate_nonneg (sub_nonneg.mpr hlast)
          have hb0 := ha.burst_nonneg
          refine ⟨le_rfl, hdur, ?_, hexcess⟩
          simp only [excessAt, habs]
          exact max_le (by linarith) (by linarith)
        · exact ⟨hlast, he, hlevel, rest, rfl⟩
      · simp only [call, hs, if_neg hover, if_true]
        have hle := not_lt.mp hover
        exact ⟨⟨le_rfl, hle, hexcess, last :: rest, rfl⟩, within_cons hin (hexcess.trans hle)⟩
  | banned x since =>
      rw [hs] at h
      obtain rfl : b = .banned x since := by
        rcases hb with hb | hb
        · cases hs.symm.trans hb
        · exact hb.symm.trans hs
      simp only [call, hs, Bool.false_eq_true, if_false]
      exact ⟨h, hin⟩

theorem within_admits (ha : lim.Accepted) (hd : Drains lim) (ts : List ℚ) :
    ∀ {adm : List ℚ} {now : ℚ} {b : Bucket}, (now :: ts).Pairwise (· ≤ ·) →
      Tracks lim adm now b → WithinBurst lim adm →
      WithinBurst lim ((b.admits lim ts).reverse ++ adm) := by
  induction ts with
  | nil =>
      intro adm now b _ _ hin
      exact hin
  | cons t ts ih =>
      intro adm now b hsorted htracks hin
      have hnow : now ≤ t := List.rel_of_pairwise_cons hsorted (.head ts)
      obtain ⟨htracks', hin'⟩ := tracks_call ha (tracks_settle ha hd htracks hnow) hin
      have hrest := ih hsorted.of_cons htracks' hin'
      simp only [admits]
      split
      · rename_i hadmitted
        simpa only [hadmitted, if_true, List.reverse_cons, List.append_assoc,
          List.singleton_append] using hrest
      · rename_i hrefused
        simpa only [hrefused, Bool.false_eq_true, if_false] using hrest

theorem admits_count (ha : lim.Accepted) (hd : Drains lim) {ts : List ℚ}
    (hsorted : ts.Pairwise (· ≤ ·)) {s t : ℚ} (hst : s ≤ t) :
    (((Bucket.admits lim .empty ts).filter (inWindow s t)).length : ℚ) ≤
      1 + lim.burst / 1000 + lim.rate * (t - s) / 1000 := by
  have hwithin : WithinBurst lim (Bucket.admits lim .empty ts).reverse := by
    cases ts with
    | nil =>
        intro l hl
        rw [List.suffix_nil.mp hl]
        exact ha.burst_nonneg
    | cons u us =>
        have hstart : WithinBurst lim [] := by
          intro l hl
          rw [List.suffix_nil.mp hl]
          exact ha.burst_nonneg
        have hfirst : (u :: u :: us).Pairwise (· ≤ ·) := by
          refine List.pairwise_cons.mpr ⟨fun v hv => ?_, hsorted⟩
          rcases List.mem_cons.mp hv with rfl | hv
          · exact le_rfl
          · exact List.rel_of_pairwise_cons hsorted hv
        have hrun : WithinBurst lim ((Bucket.admits lim .empty (u :: us)).reverse ++ []) :=
          within_admits ha hd (u :: us) hfirst (fun _ _ => le_rfl) hstart
        simpa only [List.append_nil] using hrun
  have hcount := window_count ha.rate_nonneg (by norm_num) ha.burst_nonneg _ hwithin hst
  rw [List.filter_reverse, List.length_reverse] at hcount
  linarith

/-! ### Limiters that forget too early -/

theorem settle_running (lim : RateLim) {e last t : ℚ} (h : t < last + 60) :
    settle lim t (.running e last) = .running e last := by
  simp only [settle, h, if_true]

theorem admits_replicate (lim : RateLim) (t : ℚ) (k : Nat) {e : ℚ} (he : 0 ≤ e)
    (hk : e + 1000 * k ≤ lim.burst) :
    admits lim (.running e t) (List.replicate k t) = List.replicate k t ∧
      after lim (.running e t) (List.replicate k t) = .running (e + 1000 * k) t := by
  induction k generalizing e with
  | zero => simp [admits]
  | succ k ih =>
      push_cast at hk
      have hexcess : excessAt lim e t t = e + 1000 := by
        simp only [excessAt, sub_self, abs_zero, mul_zero, sub_zero]
        exact max_eq_right (by linarith)
      have hk0 : (0 : ℚ) ≤ 1000 * k := by positivity
      have hcall : call lim t (.running e t) = (true, .running (e + 1000) t) := by
        simp only [call, settle_running lim (by linarith : t < t + 60), hexcess]
        exact if_neg (by linarith)
      obtain ⟨hadmits, hafter⟩ := ih (e := e + 1000) (by linarith) (by linarith)
      refine ⟨?_, ?_⟩
      · simp only [List.replicate_succ, admits, hcall, if_true, hadmits]
      · simp only [List.replicate_succ, after_cons, hcall, hafter]
        push_cast
        congr 1
        ring

def depth (lim : RateLim) : Nat := ⌈lim.burst / 1000⌉₊

/-- The pause after which these calls fill it to the brim. -/
def pause (lim : RateLim) : ℚ := (1000 * depth lim - lim.burst) / lim.rate

theorem burst_le_depth (lim : RateLim) : lim.burst ≤ 1000 * depth lim := by
  have h : lim.burst / 1000 ≤ depth lim := Nat.le_ceil _
  linarith

theorem depth_lt (ha : lim.Accepted) : 1000 * (depth lim : ℚ) < lim.burst + 1000 := by
  have h := Nat.ceil_lt_add_one (div_nonneg ha.burst_nonneg (by norm_num : (0 : ℚ) ≤ 1000))
  have h' : (depth lim : ℚ) < lim.burst / 1000 + 1 := h
  linarith

theorem rate_mul_pause (hr : 0 < lim.rate) :
    lim.rate * pause lim = 1000 * depth lim - lim.burst := by
  simp only [pause]
  field_simp

theorem pause_nonneg (hr : 0 < lim.rate) : 0 ≤ pause lim :=
  div_nonneg (sub_nonneg.mpr (burst_le_depth lim)) hr.le

theorem admits_fill (ha : lim.Accepted) (hr : 0 < lim.rate) {b : Bucket} {t : ℚ}
    (hb : b.settle lim t = .empty) (hpause : pause lim < 60 ∨ depth lim = 0) :
    b.admits lim (t :: List.replicate (depth lim) (t + pause lim)) =
        t :: List.replicate (depth lim) (t + pause lim) ∧
      b.after lim (t :: List.replicate (depth lim) (t + pause lim)) =
        .running lim.burst (t + pause lim) := by
  have hcall : b.call lim t = (true, .running 0 t) := by simp only [call, hb]
  have hmul := rate_mul_pause hr
  have hnonneg := pause_nonneg hr
  have hdepth := depth_lt ha
  cases hn : depth lim with
  | zero =>
      have hburst := burst_le_depth lim
      rw [hn] at hmul hburst
      push_cast at hmul hburst
      have hb0 : lim.burst = 0 := le_antisymm (by linarith) ha.burst_nonneg
      have hp0 : pause lim = 0 := by
        rw [hb0, mul_zero, sub_zero] at hmul
        exact (mul_eq_zero.mp hmul).resolve_left hr.ne'
      simp [admits, hcall, hp0, hb0]
  | succ k =>
      rw [hn] at hmul hdepth
      push_cast at hmul hdepth
      have hlt : pause lim < 60 := hpause.resolve_right (by omega)
      have hexcess : excessAt lim 0 t (t + pause lim) = lim.burst - 1000 * k := by
        simp only [excessAt, add_sub_cancel_left, abs_of_nonneg hnonneg, hmul]
        rw [max_eq_right (by linarith)]
        ring
      have hk0 : (0 : ℚ) ≤ 1000 * k := by positivity
      have hnext : call lim (t + pause lim) (.running 0 t) =
          (true, .running (lim.burst - 1000 * k) (t + pause lim)) := by
        simp only [call, settle_running lim (by linarith : t + pause lim < t + 60), hexcess]
        exact if_neg (by linarith)
      obtain ⟨hadmits, hafter⟩ := admits_replicate lim (t + pause lim) k
        (e := lim.burst - 1000 * k) (by linarith) (by linarith)
      refine ⟨?_, ?_⟩
      · simp only [List.replicate_succ, admits, hcall, hnext, if_true, hadmits]
      · simp only [List.replicate_succ, after_cons, hcall, hnext, hafter]
        congr 1
        ring

def Exceeds (lim : RateLim) : Prop :=
  ∃ (ts : List ℚ) (s t : ℚ), ts.Pairwise (· ≤ ·) ∧ s ≤ t ∧
    1 + lim.burst / 1000 + lim.rate * (t - s) / 1000 <
      (((Bucket.admits lim .empty ts).filter (inWindow s t)).length : ℚ)

theorem length_filter_inWindow {l : List ℚ} {s t : ℚ} (h : ∀ u ∈ l, s ≤ u ∧ u ≤ t) :
    (l.filter (inWindow s t)).length = l.length := by
  rw [List.filter_eq_self.mpr]
  intro u hu
  simp [inWindow, h u hu]

/-- A bucket that is filled twice, `d` seconds apart, after its record was lost. -/
theorem exceeds_of_refill (ha : lim.Accepted) (hr : 0 < lim.rate)
    (hpause : pause lim < 60 ∨ depth lim = 0) {d : ℚ} (hd : 0 ≤ d)
    (hlost : lim.rate * d < lim.burst + 1000) (k : Nat)
    (hforget : settle lim (pause lim + d)
      (after lim (.running lim.burst (pause lim)) (List.replicate k (pause lim))) = .empty) :
    Exceeds lim := by
  have hnonneg := pause_nonneg hr
  have hmul := rate_mul_pause hr
  obtain ⟨hfirst, hfull⟩ := admits_fill ha hr (b := .empty) (t := 0) rfl hpause
  rw [zero_add] at hfirst hfull
  obtain ⟨hsecond, -⟩ := admits_fill ha hr hforget hpause
  refine ⟨(0 :: List.replicate (depth lim) (pause lim)) ++
    (List.replicate k (pause lim) ++ (pause lim + d) ::
      List.replicate (depth lim) (pause lim + d + pause lim)),
    0, pause lim + d + pause lim, ?_, by linarith, ?_⟩
  · simp only [List.cons_append, List.pairwise_cons, List.pairwise_append, List.mem_append,
      List.mem_cons, List.mem_replicate, List.pairwise_replicate]
    grind
  · rw [admits_append, hfirst, hfull, admits_append, hsecond, List.filter_append,
      List.filter_append, List.length_append, List.length_append,
      length_filter_inWindow (by simp only [List.mem_cons, List.mem_replicate]; grind),
      length_filter_inWindow (l := (pause lim + d) :: _)
        (by simp only [List.mem_cons, List.mem_replicate]; grind)]
    simp only [List.length_cons, List.length_replicate]
    push_cast
    have hcount : (0 : ℚ) ≤ (((Bucket.admits lim (.running lim.burst (pause lim))
      (List.replicate k (pause lim))).filter
        (inWindow 0 (pause lim + d + pause lim))).length : ℚ) := Nat.cast_nonneg _
    linarith

/-- From an empty bucket, as many calls at one time as a burst that is no whole
number of requests allows. -/
theorem admits_burst (ha : lim.Accepted) {b : Bucket} {t : ℚ} (hb : b.settle lim t = .empty)
    (hn : depth lim ≠ 0) :
    b.admits lim (List.replicate (depth lim) t) = List.replicate (depth lim) t ∧
      settle lim (t + 60) (b.after lim (List.replicate (depth lim) t)) = .empty := by
  have hcall : b.call lim t = (true, .running 0 t) := by simp only [call, hb]
  have hdepth := depth_lt ha
  obtain ⟨k, hk⟩ := Nat.exists_eq_succ_of_ne_zero hn
  rw [hk] at hdepth ⊢
  push_cast at hdepth
  obtain ⟨hadmits, hafter⟩ := admits_replicate lim t k (e := 0) le_rfl (by linarith)
  refine ⟨?_, ?_⟩
  · simp only [Nat.succ_eq_add_one, List.replicate_succ, admits, hcall, if_true, hadmits]
  · simp only [Nat.succ_eq_add_one, List.replicate_succ, after_cons, hcall, hafter, settle,
      lt_irrefl, if_false]

/-- Where 60 seconds do not even bring a bucket to its brim, every minute starts
with a burst. -/
theorem exceeds_of_slow (ha : lim.Accepted) (hr : 0 < lim.rate) (hn : depth lim ≠ 0)
    (hpause : 60 ≤ pause lim) : Exceeds lim := by
  obtain ⟨hfirst, hlost⟩ := admits_burst ha (b := .empty) (t := 0) rfl hn
  rw [zero_add] at hlost
  obtain ⟨hsecond, hlost'⟩ := admits_burst ha hlost hn
  obtain ⟨hthird, -⟩ := admits_burst ha hlost' hn
  have hmul := rate_mul_pause hr
  have hslow : lim.rate * 60 ≤ lim.rate * pause lim := mul_le_mul_of_nonneg_left hpause hr.le
  have hburst : 0 < lim.burst := by
    refine lt_of_le_of_ne ha.burst_nonneg (fun h0 => hn ?_)
    simp [depth, ← h0]
  have hdepth : (1 : ℚ) ≤ depth lim := by exact_mod_cast Nat.one_le_iff_ne_zero.mpr hn
  refine ⟨List.replicate (depth lim) 0 ++ (List.replicate (depth lim) 60 ++
    List.replicate (depth lim) (60 + 60)), 0, 60 + 60, ?_, by norm_num, ?_⟩
  · simp only [List.pairwise_append, List.mem_append, List.mem_replicate,
      List.pairwise_replicate]
    grind
  · rw [admits_append, hfirst, admits_append, hsecond, hthird,
      length_filter_inWindow (by simp only [List.mem_append, List.mem_replicate]; grind)]
    simp only [List.length_append, List.length_replicate]
    push_cast
    linarith

theorem exceeds_of_not_drains (ha : lim.Accepted) (hr : 0 < lim.rate) (h : ¬ Drains lim) :
    Exceeds lim := by
  have hmul := rate_mul_pause hr
  have hdepth := depth_lt ha
  by_cases hminute : lim.burst + 1000 ≤ 60 * lim.rate
  · -- a ban that ends too early
    have hban : lim.duration ≠ 0 ∧ lim.duration.den = 1 ∧
        lim.duration * lim.rate < lim.burst + 1000 := by
      by_contra hno
      exact h ⟨hminute, by grind⟩
    have hpos : 0 < lim.duration := lt_of_le_of_ne ha.duration_nonneg hban.1.symm
    have hpause : pause lim < 60 := by
      refine lt_of_mul_lt_mul_left ?_ hr.le
      have hb0 := ha.burst_nonneg
      linarith
    refine exceeds_of_refill ha hr (.inl hpause) ha.duration_nonneg
      (by linarith [hban.2.2]) 1 ?_
    have hexcess : excessAt lim lim.burst (pause lim) (pause lim) = lim.burst + 1000 := by
      simp only [excessAt, sub_self, abs_zero, mul_zero, sub_zero]
      exact max_eq_right (by linarith [ha.burst_nonneg])
    have hcall : call lim (pause lim) (.running lim.burst (pause lim)) =
        (false, .banned (lim.burst + 1000) (pause lim)) := by
      simp only [call, settle_running lim (by linarith : pause lim < pause lim + 60), hexcess,
        hpos, if_true]
      exact if_pos (by linarith)
    simp only [List.replicate_one, after_cons, after_nil, hcall, settle, hban.2.1, le_refl,
      and_self, if_true]
  · -- a record that ends too early
    have hfast : lim.rate * 60 < lim.burst + 1000 := by linarith
    by_cases hpause : pause lim < 60 ∨ depth lim = 0
    · refine exceeds_of_refill ha hr hpause (by norm_num) hfast 0 ?_
      simp only [List.replicate_zero, after_nil, settle, lt_irrefl, if_false]
    · exact exceeds_of_slow ha hr (fun h0 => hpause (.inr h0))
        (not_lt.mp (fun hlt => hpause (.inl hlt)))

end Bucket

namespace RateLim
open Bucket

/-- For every limiter: in every window of every sequence of calls on one key the
admissions stay within 1 + burst + rate * length, if and only if a full bucket
drains within the 60 seconds of its record and, where there are bans that end,
an overfull one within their duration. -/
theorem window_bound_iff_drains (lim : { lim : RateLim // lim.Accepted }) (key : String)
    (hrate : 1 ≤ lim.1.rate) :
    (∀ (store : RedisStore) (times : List ℚ) (s t : ℚ),
      store.cell (lim.1.recordKey key) = none → times.Pairwise (· ≤ ·) → s ≤ t →
      (((lim.1.admissions key store times).filter (inWindow s t)).length : ℚ) ≤
        1 + lim.1.burst / 1000 + lim.1.rate * (t - s) / 1000) ↔
    Drains lim.1 := by
  have hr : 0 < lim.1.rate := by linarith
  constructor
  · intro h
    by_contra hno
    obtain ⟨ts, s, t, hsorted, hst, hover⟩ := exceeds_of_not_drains lim.2 hr hno
    have hbound := h .empty ts s t rfl hsorted hst
    rw [admissions_eq lim.1 key ts (b := .empty) rfl] at hbound
    exact absurd hbound (not_le.mpr hover)
  · intro hd store times s t hstore hsorted hst
    rw [admissions_eq lim.1 key times (b := .empty) hstore]
    exact admits_count lim.2 hd hsorted hst

/-- Ten requests a second with a burst of 20 and bans of 3 seconds. -/
theorem window_bound_iff_drains_usual :
    (∀ (store : RedisStore) (times : List ℚ) (s t : ℚ),
      store.cell (RateLim.recordKey ⟨"openresty", 10000, 20000, 3⟩ "gitlab:reqlimit:alice:") =
        none → times.Pairwise (· ≤ ·) → s ≤ t →
      (((RateLim.admissions ⟨"openresty", 10000, 20000, 3⟩ "gitlab:reqlimit:alice:" store
        times).filter (inWindow s t)).length : ℚ) ≤
        1 + 20000 / 1000 + 10000 * (t - s) / 1000) ∧
    Drains ⟨"openresty", 10000, 20000, 3⟩ := by
  have hd : Drains ⟨"openresty", 10000, 20000, 3⟩ :=
    ⟨by norm_num, .inr (.inr (by norm_num))⟩
  exact ⟨(window_bound_iff_drains
    ⟨⟨"openresty", 10000, 20000, 3⟩, by norm_num, by norm_num, by norm_num⟩
    "gitlab:reqlimit:alice:" (by norm_num)).mpr hd, hd⟩

/-- A limiter of one request a minute with a burst of 5: six calls are admitted
at once, and six more a minute later, where the bound is just under 7. -/
theorem slow_rate_exceeds :
    ∃ lim, RateLim.new (some "openresty") (.str "1r/m") (.num 5) (.num 0) = .ok lim ∧
      ¬ (((lim.1.admissions "gitlab:reqlimit:alice:" .empty
        (List.replicate 6 1730000000 ++ List.replicate 6 1730000060)).filter
          (inWindow 1730000000 1730000060)).length : ℚ) ≤
        1 + lim.1.burst / 1000 + lim.1.rate * (1730000060 - 1730000000) / 1000 := by
  refine ⟨⟨⟨"openresty", 16, 5000, 0⟩, by norm_num, by norm_num, by norm_num⟩, ?_, ?_⟩
  · decide +kernel
  · have hcount : ((RateLim.admissions ⟨"openresty", 16, 5000, 0⟩ "gitlab:reqlimit:alice:" .empty
        (List.replicate 6 1730000000 ++ List.replicate 6 1730000060)).filter
          (inWindow 1730000000 1730000060)).length = 12 := by decide +kernel
    rw [hcount]
    norm_num

end RateLim
end OpenrestyGateway
