import OpenrestyGateway.Library.LeakyBucket
import OpenrestyGateway.RatelimitBucket

/-!
The stored excess as a function of the whole admission history.

Without a ban and while the record lives, the record is that of a leaky bucket
that holds exactly the admissions so far; rejected calls are not part of it.
-/
namespace OpenrestyGateway
open Interleaving LeakyBucket

namespace Bucket

/-- The bucket that holds the admissions `adm`, newest first and all remembered. -/
def ofAdmissions (lim : RateLim) : List ℚ → Bucket
  | [] => .empty
  | last :: rest => .running (level lim.rate 1000 (last :: rest)) last

/-- The times of the calls are in order and follow the admissions before them. -/
def Follows (adm : List ℚ) (t : ℚ) : Prop := ∀ last ∈ adm.head?, last ≤ t

section Verdict
variable {lim : RateLim} {adm : List ℚ} {t : ℚ}

theorem settle_ofAdmissions (h : ∀ last ∈ adm.head?, t < last + 60) :
    (ofAdmissions lim adm).settle lim t = ofAdmissions lim adm := by
  cases adm with
  | nil => rfl
  | cons last rest =>
      have hlive := h last rfl
      simp only [ofAdmissions, settle, if_pos hlive]

theorem excessAt_level {last : ℚ} {rest : List ℚ} (h : last ≤ t) :
    excessAt lim (level lim.rate 1000 (last :: rest)) last t =
      level lim.rate 1000 (t :: last :: rest) := by
  simp only [excessAt, abs_of_nonneg (sub_nonneg.mpr h), level]

/-- A call is judged by the level of the admissions with itself appended. -/
theorem verdict_ofAdmissions (hb : 0 ≤ lim.burst) (ht : Follows adm t)
    (hlive : ∀ last ∈ adm.head?, t < last + 60) :
    (ofAdmissions lim adm).verdict lim t =
      if lim.burst < level lim.rate 1000 (t :: adm) then
        .busy (level lim.rate 1000 (t :: adm))
      else .pass (level lim.rate 1000 (t :: adm)) := by
  simp only [verdict, settle_ofAdmissions hlive]
  cases adm with
  | nil =>
      have hnot : ¬ lim.burst < (0 : ℚ) := not_lt.mpr hb
      rw [show level lim.rate 1000 [t] = 0 from rfl, if_neg hnot]
      rfl
  | cons last rest =>
      have hle : last ≤ t := ht last rfl
      simp only [ofAdmissions, excessAt_level hle]

end Verdict

/-- The admissions after one more call: a rejected one is not among them. -/
def afterCall (lim : RateLim) (adm : List ℚ) (t : ℚ) : List ℚ :=
  if lim.burst < level lim.rate 1000 (t :: adm) then adm else t :: adm

theorem head_afterCall {lim : RateLim} {adm : List ℚ} {t last : ℚ}
    (h : last ∈ (afterCall lim adm t).head?) : last ∈ adm.head? ∨ last = t := by
  simp only [afterCall] at h
  split at h
  · exact .inl h
  · cases h
    exact .inr rfl

end Bucket

namespace RateLim
open Bucket

def storeAfter (lim : RateLim) (key : String) (s : RedisStore) (ts : List ℚ) : RedisStore :=
  ts.foldl (fun s t => (callAt lim key t s).2) s

/-- No call finds a record whose lifetime is over. -/
def NeverExpires (lim : RateLim) (key : String) : RedisStore → List ℚ → Prop
  | _, [] => True
  | s, t :: ts =>
      (∀ v deadline, s.cell (lim.recordKey key) = some (v, some deadline) → t < deadline) ∧
        NeverExpires lim key (callAt lim key t s).2 ts

/-- The closed form of the excess over admissions at the given times, in milliseconds and
oldest first: each admission brings 1000 for every later one, less what has leaked. -/
def closedForm (rate : ℚ) (ms : List ℚ) : Set ℚ :=
  {x | ∃ (j : Nat) (tj tn : ℚ), ms[j]? = some tj ∧ ms.getLast? = some tn ∧
    x = ((ms.length : ℚ) - (j + 1)) * 1000 - rate * (tn - tj) / 1000}

theorem closedForm_eq (rate t : ℚ) (adm : List ℚ) :
    closedForm rate (((t :: adm).reverse).map (· * 1000)) = debts rate 1000 t (t :: adm) := by
  have hlast : (((t :: adm).reverse).map (· * 1000)).getLast? = some (t * 1000) := by
    simp
  ext x
  constructor
  · intro ⟨j, tj, tn, hj, hn, hx⟩
    rw [hlast] at hn
    cases hn
    rw [List.getElem?_map, Option.map_eq_some_iff] at hj
    obtain ⟨u, hu, rfl⟩ := hj
    have hlt : j < (t :: adm).length := by
      have := (List.getElem?_eq_some_iff.mp hu).1
      simpa using this
    rw [List.getElem?_reverse hlt] at hu
    refine ⟨(t :: adm).length - 1 - j, u, hu, ?_⟩
    have hsum : (((t :: adm).length - 1 - j : Nat) : ℚ) + (j + 1) = ((t :: adm).length : ℚ) := by
      have : ((t :: adm).length - 1 - j) + (j + 1) = (t :: adm).length := by omega
      exact_mod_cast this
    rw [hx, List.length_map, List.length_reverse]
    linear_combination (-1000) * hsum
  · intro ⟨i, u, hu, hx⟩
    have hlt : i < (t :: adm).length := (List.getElem?_eq_some_iff.mp hu).1
    have hback : (t :: adm).length - 1 - ((t :: adm).length - 1 - i) = i := by omega
    refine ⟨(t :: adm).length - 1 - i, u * 1000, t * 1000, ?_, hlast, ?_⟩
    · rw [List.getElem?_map, List.getElem?_reverse (by omega), hback, hu]
      rfl
    · have hsum : (((t :: adm).length - 1 - i : Nat) : ℚ) + (i + 1) = ((t :: adm).length : ℚ) := by
        have : ((t :: adm).length - 1 - i) + (i + 1) = (t :: adm).length := by omega
        exact_mod_cast this
      rw [hx, List.length_map, List.length_reverse]
      linear_combination 1000 * hsum

section Calls
variable {lim : RateLim} {key : String} {s : RedisStore} {adm : List ℚ} {t : ℚ}

theorem live_of_cell (h : s.cell (lim.recordKey key) = (ofAdmissions lim adm).cell lim)
    (hlive : ∀ v deadline, s.cell (lim.recordKey key) = some (v, some deadline) → t < deadline) :
    ∀ last ∈ adm.head?, t < last + 60 := by
  intro last hlast
  cases adm with
  | nil => cases hlast
  | cons a rest =>
      cases hlast
      exact hlive _ _ h

/-- One call: a rejection leaves the store alone, an admission appends its time. -/
theorem callAt_ofAdmissions (hb : 0 ≤ lim.burst) (hd : lim.duration = 0)
    (h : s.cell (lim.recordKey key) = (ofAdmissions lim adm).cell lim) (ht : Follows adm t)
    (hlive : ∀ v deadline, s.cell (lim.recordKey key) = some (v, some deadline) → t < deadline) :
    (lim.burst < level lim.rate 1000 (t :: adm) →
      callAt lim key t s = (.ok (.refused (some "rejected")), { s with clock := t })) ∧
    (level lim.rate 1000 (t :: adm) ≤ lim.burst →
      (callAt lim key t s).1 = .ok (.granted (Delay.divide (level lim.rate 1000 (t :: adm))
        lim.rate) (level lim.rate 1000 (t :: adm) / 1000)) ∧
      (callAt lim key t s).2.cell (lim.recordKey key) =
        (ofAdmissions lim (t :: adm)).cell lim) := by
  have hcall := callAt_eq lim key t h
  rw [verdict_ofAdmissions hb ht (live_of_cell h hlive)] at hcall
  constructor
  · intro hover
    rw [hcall, if_pos hover]
    simp only [Verdict.write, hd, lt_irrefl, if_false]
    rfl
  · intro hle
    rw [if_neg (not_lt.mpr hle)] at hcall
    obtain ⟨hanswer, hcell⟩ := run_writeBack (lim.recordKey key) { s with clock := t }
      ((Verdict.pass (level lim.rate 1000 (t :: adm))).answer lim)
      ((Verdict.pass (level lim.rate 1000 (t :: adm))).write lim (t * 1000))
    rw [hcall]
    exact ⟨hanswer, hcell⟩

/-- What the store and the history are after one call. -/
theorem callAt_afterCall (hb : 0 ≤ lim.burst) (hd : lim.duration = 0)
    (h : s.cell (lim.recordKey key) = (ofAdmissions lim adm).cell lim) (ht : Follows adm t)
    (hlive : ∀ v deadline, s.cell (lim.recordKey key) = some (v, some deadline) → t < deadline) :
    (callAt lim key t s).2.cell (lim.recordKey key) =
        (ofAdmissions lim (afterCall lim adm t)).cell lim ∧
      ∀ ts, (admissions lim key s (t :: ts)).reverse ++ adm =
        (admissions lim key (callAt lim key t s).2 ts).reverse ++ afterCall lim adm t := by
  obtain ⟨hreject, hpass⟩ := callAt_ofAdmissions hb hd h ht hlive
  by_cases hover : lim.burst < level lim.rate 1000 (t :: adm)
  · simp only [afterCall, if_pos hover, admissions, hreject hover]
    exact ⟨h, fun _ => rfl⟩
  · obtain ⟨hanswer, hcell⟩ := hpass (not_lt.mp hover)
    simp only [afterCall, if_neg hover, admissions, hanswer]
    exact ⟨hcell, fun ts => by simp [isGranted]⟩

/-- A run of less than a minute never expires. -/
theorem neverExpires_of_short (hb : 0 ≤ lim.burst) (hd : lim.duration = 0) (ts : List ℚ) :
    ∀ (s : RedisStore) (adm : List ℚ),
      s.cell (lim.recordKey key) = (ofAdmissions lim adm).cell lim →
      ts.Pairwise (· ≤ ·) → (∀ t ∈ ts, Follows adm t) →
      (∀ t ∈ ts, ∀ u ∈ adm.head?, t < u + 60) → (∀ t ∈ ts, ∀ u ∈ ts, t < u + 60) →
      NeverExpires lim key s ts := by
  induction ts with
  | nil =>
      intro s adm _ _ _ _ _
      trivial
  | cons t ts ih =>
      intro s adm h hsorted hfollows hnear hshort
      obtain ⟨hfirst, hsorted⟩ := List.pairwise_cons.mp hsorted
      have hmem : t ∈ t :: ts := List.mem_cons_self ..
      have htail : ∀ u ∈ ts, u ∈ t :: ts := fun u hu => List.mem_cons_of_mem t hu
      have hlive : ∀ v deadline,
          s.cell (lim.recordKey key) = some (v, some deadline) → t < deadline := by
        intro v deadline hcell
        rw [h] at hcell
        cases adm with
        | nil => cases hcell
        | cons last rest =>
            cases hcell
            exact hnear t hmem last rfl
      refine ⟨hlive, ih _ _ (callAt_afterCall hb hd h (hfollows t hmem) hlive).1 hsorted ?_ ?_
        (fun v hv u hu => hshort v (htail v hv) u (htail u hu))⟩
      · intro u hu last hlast
        rcases head_afterCall hlast with hold | rfl
        · exact hfollows u (htail u hu) last hold
        · exact hfirst u hu
      · intro u hu last hlast
        rcases head_afterCall hlast with hold | rfl
        · exact hnear u (htail u hu) last hold
        · exact hshort u (htail u hu) last hmem

/-- After a run the store holds the bucket of all its admissions. -/
theorem storeAfter_ofAdmissions (hb : 0 ≤ lim.burst) (hd : lim.duration = 0) (ts us : List ℚ) :
    ∀ (s : RedisStore) (adm : List ℚ),
      s.cell (lim.recordKey key) = (ofAdmissions lim adm).cell lim →
      (ts ++ us).Pairwise (· ≤ ·) → (∀ t ∈ ts ++ us, Follows adm t) →
      NeverExpires lim key s (ts ++ us) →
      (storeAfter lim key s ts).cell (lim.recordKey key) =
          (ofAdmissions lim ((admissions lim key s ts).reverse ++ adm)).cell lim ∧
        (∀ t ∈ us, Follows ((admissions lim key s ts).reverse ++ adm) t) ∧
        NeverExpires lim key (storeAfter lim key s ts) us := by
  induction ts with
  | nil =>
      intro s adm h _ hfollows hlive
      exact ⟨h, hfollows, hlive⟩
  | cons t ts ih =>
      intro s adm h hsorted hfollows hlive
      obtain ⟨hfirst, hsorted⟩ := List.pairwise_cons.mp hsorted
      obtain ⟨hcell, hhistory⟩ := callAt_afterCall hb hd h
        (hfollows t (List.mem_cons_self ..)) hlive.1
      rw [hhistory]
      refine ih (callAt lim key t s).2 (afterCall lim adm t) hcell hsorted ?_ hlive.2
      intro u hu last hlast
      rcases head_afterCall hlast with hold | rfl
      · exact hfollows u (List.mem_cons_of_mem t hu) last hold
      · exact hfirst u hu

/-- Every call of a run is decided by the closed form over the admissions before it and
itself, which is the excess that an admitted call stores and returns. -/
theorem excess_closed_form (hr : 1 ≤ lim.rate) (hb : 0 ≤ lim.burst) (hd : lim.duration = 0)
    (habsent : s.cell (lim.recordKey key) = none) {ts : List ℚ}
    (hsorted : (ts ++ [t]).Pairwise (· ≤ ·)) (hlive : NeverExpires lim key s (ts ++ [t])) :
    ∃ excess, IsGreatest (closedForm lim.rate
        ((admissions lim key s ts ++ [t]).map (· * 1000))) excess ∧
      (isGranted (callAt lim key t (storeAfter lim key s ts)).1 = false ↔
        lim.burst < excess) ∧
      (lim.burst < excess → callAt lim key t (storeAfter lim key s ts) =
        (.ok (.refused (some "rejected")), { storeAfter lim key s ts with clock := t })) ∧
      (excess ≤ lim.burst →
        (callAt lim key t (storeAfter lim key s ts)).1 =
          .ok (.granted (.finite (excess / lim.rate)) (excess / 1000)) ∧
        (callAt lim key t (storeAfter lim key s ts)).2.cell (lim.recordKey key) =
          some (.str (record excess (t * 1000) false), some (t + 60))) := by
  obtain ⟨hcell, hfollows, hnext⟩ := storeAfter_ofAdmissions hb hd ts [t] s [] habsent
    hsorted (fun _ _ _ hlast => by cases hlast) hlive
  rw [List.append_nil] at hcell hfollows
  obtain ⟨hreject, hpass⟩ := callAt_ofAdmissions hb hd hcell
    (hfollows t (List.mem_cons_self ..)) hnext.1
  have hrate : lim.rate ≠ 0 := (lt_of_lt_of_le one_pos hr).ne'
  have hms : (admissions lim key s ts ++ [t]).map (· * 1000) =
      ((t :: (admissions lim key s ts).reverse).reverse).map (· * 1000) := by
    rw [List.reverse_cons, List.reverse_reverse]
  refine ⟨level lim.rate 1000 (t :: (admissions lim key s ts).reverse), ?_, ?_, hreject, ?_⟩
  · rw [hms, closedForm_eq]
    exact level_isGreatest t _
  · constructor
    · intro hno
      refine not_le.mp (fun hle => ?_)
      rw [(hpass hle).1] at hno
      cases hno
    · intro hover
      rw [hreject hover]
      rfl
  · intro hle
    have hdivide : Delay.divide (level lim.rate 1000
        (t :: (admissions lim key s ts).reverse)) lim.rate =
        .finite (level lim.rate 1000 (t :: (admissions lim key s ts).reverse) / lim.rate) :=
      if_pos hrate
    obtain ⟨hanswer, hstored⟩ := hpass hle
    rw [hdivide] at hanswer
    exact ⟨hanswer, hstored⟩

end Calls

/-- Two calls at once fill a bucket of one; half a second later the next is rejected. -/
theorem excess_closed_form_burst : ∃ excess,
    IsGreatest (closedForm 1000 ((admissions ⟨"openresty", 1000, 1000, 0⟩ "gitlab" .empty [0, 0] ++
      [1 / 2]).map (· * 1000))) excess ∧
    (isGranted (callAt ⟨"openresty", 1000, 1000, 0⟩ "gitlab" (1 / 2)
      (storeAfter ⟨"openresty", 1000, 1000, 0⟩ "gitlab" .empty [0, 0])).1 = false ↔
        1000 < excess) := by
  have hsorted : ([0, 0] ++ [1 / 2] : List ℚ).Pairwise (· ≤ ·) := by
    decide +kernel
  have hshort : ∀ t ∈ ([0, 0] ++ [1 / 2] : List ℚ), ∀ u ∈ ([0, 0] ++ [1 / 2] : List ℚ),
      t < u + 60 := by
    decide +kernel
  have hlive : NeverExpires ⟨"openresty", 1000, 1000, 0⟩ "gitlab" .empty ([0, 0] ++ [1 / 2]) :=
    neverExpires_of_short (by norm_num) rfl _ .empty [] rfl hsorted
      (fun _ _ _ hlast => by cases hlast) (fun _ _ _ hlast => by cases hlast) hshort
  obtain ⟨excess, hgreatest, hiff, -⟩ := excess_closed_form
    (show (1 : ℚ) ≤ RateLim.rate ⟨"openresty", 1000, 1000, 0⟩ by norm_num)
    (show (0 : ℚ) ≤ RateLim.burst ⟨"openresty", 1000, 1000, 0⟩ by norm_num) rfl
    (show Ttl.Store.cell RedisStore.empty (recordKey ⟨"openresty", 1000, 1000, 0⟩ "gitlab") =
      none from rfl) hsorted hlive
  exact ⟨excess, hgreatest, hiff⟩

end RateLim
end OpenrestyGateway
