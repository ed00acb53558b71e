import OpenrestyGateway.HealthEvents
import OpenrestyGateway.Library.Prog
import Mathlib.Algebra.Order.Floor.Ring

/-!
access/upstream_logic.lua as it runs in a request: it reads the status of every
target, draws a random number and writes a variable of nginx.

Each read may be answered in its own way, or fail.
-/
namespace OpenrestyGateway
open Interleaving HealthCheck

namespace UpstreamSelect

/-- What math.random returns. -/
structure Random where
  value : ℚ
  nonneg : 0 ≤ value
  lt_one : value < 1

inductive Op where
  | get (key : String)
  | random
  | setUpstreamAddress (address : String)

/-- A failed read answers nil and an error. -/
abbrev Op.Answer : Op → Type
  | .get _ => Val × Option String
  | .random => Random
  | .setUpstreamAddress _ => Unit

abbrev Script (α : Type) := Prog Op Op.Answer LuaError α

def address (t : Target) : String := t.host ++ (":" ++ toString t.port)

def setAddress (t : Target) : Script Unit := .call (.setUpstreamAddress (address t)) .ret

/-- The loop that fills `available_host`. -/
def availableHost (available : List Target) : List Target → Script (List Target)
  | [] => return available
  | v :: target => do
      let (value, _) ← .call (.get (redisKey v)) .ret
      availableHost (if value.isStr "healthy" then available ++ [v] else available) target

def randomNumber (random : Random) (n : Nat) : Int := ⌊random.value * n + 1⌋

/-- The loop over `available_host`, from the index `k` on, for the index `number`. -/
def findNumber (number : Int) (k : Nat) : List Target → Option Target
  | [] => none
  | v :: rest => if (k : Int) = number then some v else findNumber number (k + 1) rest

def useDefault (table : HealthcheckTable) : Script Unit :=
  match table.target with
  | [] => .stop (.index .nil)
  | v :: _ => setAddress v

def upstreamLogic (table : HealthcheckTable) : Script Unit := do
  let available ← availableHost [] table.target
  if table.loadBalance.isStr "first" then
    match available with
    | v :: _ => setAddress v
    | [] => useDefault table
  else do
    -- seeded with the time before, so any number may come
    let random ← .call .random .ret
    match findNumber (randomNumber random available.length) 1 available with
    | some v => setAddress v
    | none => useDefault table

/-! ### Runs -/

/-- The answer to the `n`-th read. -/
abbrev Reply := Nat → String → Val × Option String

structure State where
  reads : Nat
  upstreamAddress : List String

/-- `upstreamAddress` lists what the variable has been set to. -/
def exec (reply : Reply) (random : Random) (s : State) : (o : Op) → o.Answer × State
  | .get key => (reply s.reads key, { s with reads := s.reads + 1 })
  | .random => (random, s)
  | .setUpstreamAddress value => ((), { s with upstreamAddress := s.upstreamAddress ++ [value] })

def result (reply : Reply) (table : HealthcheckTable) (random : Random) :
    Except LuaError Unit × State :=
  Prog.run (exec reply random) ⟨0, []⟩ (upstreamLogic table)

/-- The read of the `i`-th target says healthy. -/
def Healthy (reply : Reply) (table : HealthcheckTable) (i : Nat) (t : Target) : Prop :=
  table.target[i]? = some t ∧ (reply i (redisKey t)).1 = .str "healthy"

/-- The variable is set once, to this target's address. -/
def SetTo (reply : Reply) (table : HealthcheckTable) (random : Random) (t : Target) : Prop :=
  result reply table random = (.ok (), ⟨table.target.length, [address t]⟩)

/-- The targets whose reads, from the `n`-th on, say healthy. -/
def healthyHosts (reply : Reply) (n : Nat) (target : List Target) : List Target :=
  ((target.zipIdx n).filter
    (fun p => (reply p.2 (redisKey p.1)).1.isStr "healthy")).map Prod.fst

structure Selects (reply : Reply) (table : HealthcheckTable) : Prop where
  once : ∀ random, ∃ t ∈ table.target, SetTo reply table random t
  healthy : (∃ i t, Healthy reply table i t) → ∀ random,
    ∃ i t, Healthy reply table i t ∧ SetTo reply table random t
  first : table.loadBalance = .str "first" → ∀ random i t, Healthy reply table i t →
    (∀ j < i, ∀ u, ¬ Healthy reply table j u) → SetTo reply table random t
  reachable : table.loadBalance ≠ .str "first" → ∀ i t, Healthy reply table i t →
    ∃ random, SetTo reply table random t
  inRange : (∃ i t, Healthy reply table i t) → ∀ random,
    1 ≤ randomNumber random (healthyHosts reply 0 table.target).length ∧
      randomNumber random (healthyHosts reply 0 table.target).length ≤
        (healthyHosts reply 0 table.target).length
  default : (∀ i t, ¬ Healthy reply table i t) → ∀ random, ∀ t ∈ table.target.head?,
    SetTo reply table random t

section Loops
variable {reply : Reply} {random : Random}

theorem healthyHosts_cons (n : Nat) (v : Target) (target : List Target) :
    healthyHosts reply n (v :: target) =
      if (reply n (redisKey v)).1.isStr "healthy" then v :: healthyHosts reply (n + 1) target
      else healthyHosts reply (n + 1) target := by
  simp only [healthyHosts, List.zipIdx_cons, List.filter_cons]
  cases (reply n (redisKey v)).1.isStr "healthy" with
  | true => rfl
  | false => rfl

theorem run_availableHost (target available : List Target) (s : State) :
    Prog.run (exec reply random) s (availableHost available target) =
      (.ok (available ++ healthyHosts reply s.reads target),
        { s with reads := s.reads + target.length }) := by
  induction target generalizing available s with
  | nil => simp [availableHost, healthyHosts]
  | cons v target ih =>
      have hstep : Prog.run (exec reply random) s (availableHost available (v :: target)) =
          Prog.run (exec reply random) { s with reads := s.reads + 1 }
            (availableHost (if (reply s.reads (redisKey v)).1.isStr "healthy" then
              available ++ [v] else available) target) := rfl
      rw [hstep, ih, healthyHosts_cons]
      have hreads : s.reads + 1 + target.length = s.reads + (v :: target).length := by
        rw [List.length_cons]
        omega
      rw [hreads]
      cases (reply s.reads (redisKey v)).1.isStr "healthy" with
      | true => simp
      | false => simp

theorem findNumber_eq (i k : Nat) (hosts : List Target) :
    findNumber ((i + k : Nat) : Int) k hosts = hosts[i]? := by
  induction hosts generalizing i k with
  | nil => rfl
  | cons v rest ih =>
      cases i with
      | zero => simp [findNumber]
      | succ i =>
          have hne : ¬ (k : Int) = ((i + 1 + k : Nat) : Int) := by omega
          have hnext : i + 1 + k = i + (k + 1) := by omega
          rw [findNumber, if_neg hne, hnext, ih]
          rfl

theorem mem_healthyHosts {target : List Target} {t : Target} :
    t ∈ healthyHosts reply 0 target ↔
      ∃ i, target[i]? = some t ∧ (reply i (redisKey t)).1 = .str "healthy" := by
  simp only [healthyHosts, List.mem_map, List.mem_filter, List.mem_zipIdx_iff_getElem?]
  constructor
  · intro h
    obtain ⟨⟨u, i⟩, ⟨hget, hsays⟩, hu⟩ := h
    cases hu
    exact ⟨i, hget, Val.isStr_iff.mp hsays⟩
  · intro h
    obtain ⟨i, hget, hsays⟩ := h
    exact ⟨(t, i), ⟨hget, Val.isStr_iff.mpr hsays⟩, rfl⟩

end Loops

/-! ### The random number -/

theorem randomNumber_index (random : Random) {n : Nat} (h : 0 < n) :
    ∃ i < n, randomNumber random n = ((i + 1 : Nat) : Int) := by
  have hn : (0 : ℚ) < n := by exact_mod_cast h
  have hlow : 0 ≤ random.value * n := mul_nonneg random.nonneg hn.le
  have hhigh : random.value * n < n := mul_lt_of_lt_one_left hn random.lt_one
  have hfloor : randomNumber random n = ⌊random.value * n⌋ + 1 := Int.floor_add_one _
  have hzero : 0 ≤ ⌊random.value * n⌋ := Int.floor_nonneg.mpr hlow
  have hlt : ⌊random.value * n⌋ < (n : Int) := Int.floor_lt.mpr (by exact_mod_cast hhigh)
  exact ⟨⌊random.value * n⌋.toNat, by omega, by omega⟩

theorem exists_random {i n : Nat} (h : i < n) :
    ∃ random, randomNumber random n = ((i + 1 : Nat) : Int) := by
  have hn : (0 : ℚ) < n := by exact_mod_cast (Nat.zero_lt_of_lt h)
  have hi : (i : ℚ) < n := by exact_mod_cast h
  refine ⟨⟨i / n, div_nonneg i.cast_nonneg hn.le, (div_lt_one hn).mpr hi⟩, ?_⟩
  have hvalue : (i : ℚ) / n * n + 1 = ((i + 1 : Nat) : ℚ) := by
    rw [div_mul_cancel₀ _ hn.ne']
    push_cast
    rfl
  simp only [randomNumber, hvalue]
  exact Int.floor_natCast _

/-! ### The choice -/

def chosen (table : HealthcheckTable) (random : Random) (hosts : List Target) :
    Option Target :=
  if table.loadBalance.isStr "first" then hosts.head?
  else findNumber (randomNumber random hosts.length) 1 hosts

section Choice
variable {reply : Reply} {table : HealthcheckTable} {random : Random}

theorem chosen_some {hosts : List Target} (h : hosts ≠ []) :
    ∃ t ∈ hosts, chosen table random hosts = some t := by
  simp only [chosen]
  cases table.loadBalance.isStr "first" with
  | true =>
      obtain ⟨t, rest, hlist⟩ := List.exists_cons_of_ne_nil h
      exact ⟨t, hlist ▸ .head rest, hlist ▸ rfl⟩
  | false =>
      obtain ⟨i, hi, hnumber⟩ := randomNumber_index random (List.length_pos_iff.mpr h)
      refine ⟨hosts[i], List.getElem_mem hi, ?_⟩
      rw [if_neg Bool.false_ne_true, hnumber, findNumber_eq, List.getElem?_eq_getElem hi]

theorem setTo_of_chosen {t : Target}
    (h : chosen table random (healthyHosts reply 0 table.target) = some t) :
    SetTo reply table random t := by
  simp only [chosen] at h
  simp only [SetTo, result, upstreamLogic, Prog.run_bind, run_availableHost, List.nil_append]
  cases hfirst : table.loadBalance.isStr "first" with
  | true =>
      rw [hfirst, if_pos rfl] at h
      cases hhosts : healthyHosts reply 0 table.target with
      | nil =>
          rw [hhosts] at h
          cases h
      | cons v rest =>
          rw [hhosts] at h
          cases h
          simp [setAddress, exec]
  | false =>
      rw [hfirst, if_neg Bool.false_ne_true] at h
      simp [exec, h, setAddress]

theorem setTo_default {t : Target} (hhosts : healthyHosts reply 0 table.target = [])
    (h : table.target.head? = some t) : SetTo reply table random t := by
  simp only [SetTo, result, upstreamLogic, Prog.run_bind, run_availableHost, List.nil_append,
    hhosts]
  cases htarget : table.target with
  | nil =>
      rw [htarget] at h
      cases h
  | cons v rest =>
      rw [htarget] at h
      cases h
      cases table.loadBalance.isStr "first" with
      | true => simp [useDefault, htarget, setAddress, exec]
      | false => simp [useDefault, htarget, setAddress, exec, findNumber]

theorem healthyHosts_ne_nil (h : ∃ i t, Healthy reply table i t) :
    healthyHosts reply 0 table.target ≠ [] := by
  obtain ⟨i, t, ht⟩ := h
  exact List.ne_nil_of_mem (mem_healthyHosts.mpr ⟨i, ht⟩)

theorem healthyHosts_eq_nil (h : ∀ i t, ¬ Healthy reply table i t) :
    healthyHosts reply 0 table.target = [] := by
  refine List.eq_nil_iff_forall_not_mem.mpr (fun t ht => ?_)
  obtain ⟨i, hi⟩ := mem_healthyHosts.mp ht
  exact h i t hi

theorem head_healthyHosts {i : Nat} {t : Target} (h : Healthy reply table i t)
    (hfirst : ∀ j < i, ∀ u, ¬ Healthy reply table j u) :
    (healthyHosts reply 0 table.target).head? = some t := by
  have hlt : i < table.target.length := (List.getElem?_eq_some_iff.mp h.1).1
  have hfind : table.target.zipIdx.find?
      (fun p => (reply p.2 (redisKey p.1)).1.isStr "healthy") = some (t, i) := by
    refine List.find?_eq_some_iff_getElem.mpr ⟨Val.isStr_iff.mpr h.2, i, ?_, ?_, ?_⟩
    · rw [List.length_zipIdx]
      exact hlt
    · rw [List.getElem_zipIdx, Nat.zero_add, (List.getElem?_eq_some_iff.mp h.1).2]
    · intro j hj
      rw [List.getElem_zipIdx, Nat.zero_add]
      rw [Bool.not_eq_true', ← Bool.not_eq_true]
      intro hsays
      exact hfirst j hj _ ⟨List.getElem?_eq_getElem (by omega), Val.isStr_iff.mp hsays⟩
  rw [healthyHosts, List.head?_map, List.head?_filter, hfind]
  rfl

end Choice

/-- The variable is set once, to a healthy target if one has been read as healthy. -/
theorem upstreamLogic_selects (reply : Reply) {table : HealthcheckTable}
    (hne : table.target ≠ []) : Selects reply table := by
  have hchosen : (∃ i t, Healthy reply table i t) → ∀ random,
      ∃ i t, Healthy reply table i t ∧ SetTo reply table random t := by
    intro hsome random
    obtain ⟨t, ht, hchosen⟩ := @chosen_some table random _ (healthyHosts_ne_nil hsome)
    obtain ⟨i, hi⟩ := mem_healthyHosts.mp ht
    exact ⟨i, t, hi, setTo_of_chosen hchosen⟩
  constructor
  case once =>
    intro random
    by_cases hsome : ∃ i t, Healthy reply table i t
    · obtain ⟨i, t, ht, hset⟩ := hchosen hsome random
      exact ⟨t, List.mem_of_getElem? ht.1, hset⟩
    · have hnone := healthyHosts_eq_nil (fun i t h => hsome ⟨i, t, h⟩)
      obtain ⟨t, rest, hlist⟩ := List.exists_cons_of_ne_nil hne
      exact ⟨t, hlist ▸ .head rest, setTo_default hnone (hlist ▸ rfl)⟩
  case healthy => exact hchosen
  case first =>
    intro hmode random i t ht hfirst
    refine setTo_of_chosen ?_
    rw [chosen, if_pos (Val.isStr_iff.mpr hmode)]
    exact head_healthyHosts ht hfirst
  case reachable =>
    intro hmode i t ht
    obtain ⟨k, hk, hget⟩ := List.getElem_of_mem (mem_healthyHosts.mpr ⟨i, ht⟩)
    obtain ⟨random, hnumber⟩ := exists_random hk
    refine ⟨random, setTo_of_chosen ?_⟩
    rw [chosen, if_neg (fun h => hmode (Val.isStr_iff.mp h)), hnumber, findNumber_eq,
      List.getElem?_eq_getElem hk, hget]
  case inRange =>
    intro hsome random
    obtain ⟨i, hi, hnumber⟩ :=
      randomNumber_index random (List.length_pos_iff.mpr (healthyHosts_ne_nil hsome))
    omega
  case default =>
    intro hnone random t ht
    exact setTo_default (healthyHosts_eq_nil hnone) ht

/-- Two targets, of which the second is healthy. -/
theorem upstreamLogic_selects_second :
    Selects (fun i _ => if i = 1 then (.str "healthy", none) else (.nil, some "timeout"))
      ⟨[⟨"10.0.0.1", 80⟩, ⟨"10.0.0.2", 80⟩], .str "first"⟩ :=
  upstreamLogic_selects _ (List.cons_ne_nil _ _)

/-! ### Reads of one store -/

theorem healthyHosts_eq_availableHost {reply : Reply} {s : RedisStore}
    (h : ∀ i t, (reply i (redisKey t)).1.isStr "healthy" = isHealthy s t) (n : Nat)
    (target : List Target) :
    healthyHosts reply n target = HealthCheck.availableHost s target := by
  induction target generalizing n with
  | nil => rfl
  | cons v target ih =>
      rw [healthyHosts_cons, h, ih, HealthCheck.availableHost, HealthCheck.availableHost,
        List.filter_cons]

/-- Where every read is of one store, the variable is set to the upstream that the
healthchecks of that store choose. -/
theorem setTo_of_store {reply : Reply} {s : RedisStore} {table : HealthcheckTable}
    {random : Random} {t : Target}
    (h : ∀ i t, (reply i (redisKey t)).1.isStr "healthy" = isHealthy s t)
    (hstore : HealthCheck.upstreamLogic s table random.value = .ok t) :
    SetTo reply table random t := by
  have hhosts := healthyHosts_eq_availableHost h 0 table.target
  by_cases hsome : HealthCheck.availableHost s table.target = []
  · rw [hsome] at hhosts
    refine setTo_default hhosts ?_
    simp only [HealthCheck.upstreamLogic, hsome] at hstore
    cases htarget : table.target.head? with
    | none => simp [htarget] at hstore
    | some v => simpa [htarget] using hstore
  · refine setTo_of_chosen ?_
    rw [hhosts]
    simp only [chosen, HealthCheck.upstreamLogic] at hstore ⊢
    by_cases hmode : table.loadBalance.isStr "first" = true
    · obtain ⟨v, rest, hlist⟩ := List.exists_cons_of_ne_nil hsome
      rw [if_pos hmode, hlist] at hstore ⊢
      simpa using hstore
    · obtain ⟨i, hi, hnumber⟩ :=
        randomNumber_index random (List.length_pos_iff.mpr hsome)
      have hindex : (randomNumber random
          (HealthCheck.availableHost s table.target).length).toNat - 1 = i := by
        rw [hnumber]
        omega
      rw [if_neg hmode] at hstore ⊢
      rw [hnumber, findNumber_eq]
      rw [randomNumber] at hindex
      rw [hindex, List.getElem?_eq_getElem hi] at hstore
      rw [List.getElem?_eq_getElem hi]
      cases hstore
      rfl

end UpstreamSelect
end OpenrestyGateway
