import OpenrestyGateway.DecimalText
import OpenrestyGateway.HealthViews
import Mathlib.Algebra.Order.Floor.Semiring
import Mathlib.Data.List.Basic

/-!
resty/healthcheck.lua: the active checks.

A round takes the listed targets whose local health is that of the round, deals them out in
work packages, and runs the packages in threads of their own.
-/
namespace OpenrestyGateway
namespace HealthProbes

open Healthcheck (Health Checks Report Command)
open HealthTargets (Targets Entry Name)

/-! ### Which targets -/

inductive Mode where
  | healthy
  | unhealthy
  deriving DecidableEq

def Mode.of (mode : Mode) : Option Health → Bool
  | some .healthy | some .mostlyHealthy => mode = .healthy
  | some .unhealthy | some .mostlyUnhealthy => mode = .unhealthy
  | none => false

/-- `list_to_check` of checker_callback. -/
def listToCheck (mode : Mode) (list : List Entry) (t : Targets) : List Entry :=
  list.filter (fun e => mode.of ((t.find e.name).bind id))

/-! ### Work packages -/

section Packages
variable {α : Type}

/-- `idx` counts from 1. -/
structure Dealing (α : Type) where
  idx : Nat
  packages : List (List α)

def Dealing.put (concurrency : ℚ) (d : Dealing α) (item : α) : Dealing α :=
  let packages :=
    if d.idx ≤ d.packages.length then
      d.packages.modify (d.idx - 1) (fun package => package ++ [item])
    else d.packages ++ [[item]]
  let idx := d.idx + 1
  ⟨if concurrency < idx then 1 else idx, packages⟩

def workPackages (concurrency : ℚ) (list : List α) : List (List α) :=
  (list.foldl (Dealing.put concurrency) ⟨1, []⟩).packages

end Packages

/-! ### One check -/

/-- What the calls on the socket return. -/
structure Wire where
  tcp : Except String Unit
  connect : Except String Unit
  handshake : Except String Unit
  send : Except String Unit
  receive : Except String String

/-- What is reported, and whether the socket is closed by the check. -/
structure Outcome where
  report : Option Report
  closed : Bool

def isHttp (cs : List Char) : Bool := cs.map Char.toLower = "http/".toList

/-- `^HTTP/\d+\.\d+\s+(\d+)` in any case of letters: the digits of the status. -/
def statusDigits (line : List Char) : Option (List Char) :=
  let major := line.drop 5
  let minor := (major.dropWhile Char.isDigit).drop 1
  let spaces := minor.dropWhile Char.isDigit
  let digits := (spaces.dropWhile isSpace).takeWhile Char.isDigit
  if isHttp (line.take 5) ∧ major.takeWhile Char.isDigit ≠ [] ∧
      (major.dropWhile Char.isDigit).head? = some '.' ∧ minor.takeWhile Char.isDigit ≠ [] ∧
      spaces.takeWhile isSpace ≠ [] ∧ digits ≠ [] then
    some digits
  else none

def status (line : String) : Option ℚ :=
  (statusDigits line.toList).bind (fun digits => tonumber (String.ofList digits))

/-- A timeout does not close the socket, other errors do. -/
def failed (err : String) : Outcome :=
  if err = "timeout" then ⟨some (.timeout .active), true⟩
  else ⟨some (.tcpFailure .active), false⟩

def exchange (w : Wire) : Outcome :=
  match w.send with
  | .error err => failed err
  | .ok _ =>
      match w.receive with
      | .error err => failed err
      | .ok line => ⟨some (.httpStatus (status line) .active), true⟩

def runSingleCheck (checks : Checks) (w : Wire) : Outcome :=
  match w.tcp with
  | .error _ => ⟨none, false⟩
  | .ok _ =>
      match w.connect with
      | .error err => failed err
      | .ok _ =>
          match checks.active.type with
          | .tcp => ⟨some (.success .active), true⟩
          | .https =>
              match w.handshake with
              | .error _ => ⟨some (.tcpFailure .active), true⟩
              | .ok _ => exchange w
          | .http => exchange w

/-! ### A round -/

section Round
variable {α : Type} [DecidableEq α]

/-- A target after its check, and the report made under the lock of the target. -/
def probed (checks : Checks) (w : Wire) (t : Healthcheck.Target) : Healthcheck.Target :=
  match (runSingleCheck checks w).report with
  | none => t
  | some r => t.step checks (.report r)

def probe (checks : Checks) (wire : α → Wire) (s : α → Healthcheck.Target) (a : α) :
    α → Healthcheck.Target :=
  Function.update s a (probed checks (wire a) (s a))

def probeAll (checks : Checks) (wire : α → Wire) (s : α → Healthcheck.Target) (order : List α) :
    α → Healthcheck.Target :=
  order.foldl (probe checks wire) s

end Round

/-! ### Each target once -/

section Packages
variable {α : Type} {concurrency : ℚ}

theorem modify_flatten (packages : List (List α)) {i : Nat} (h : i < packages.length) (item : α) :
    (packages.modify i (fun package => package ++ [item])).flatten.Perm
      (packages.flatten ++ [item]) := by
  induction packages generalizing i with
  | nil => cases h
  | cons package packages ih =>
      cases i with
      | zero =>
          simp only [List.modify_zero_cons, List.flatten_cons, List.append_assoc]
          exact List.perm_append_comm.append_left package
      | succ i =>
          simp only [List.modify_succ_cons, List.flatten_cons, List.append_assoc]
          exact (ih (Nat.lt_of_succ_lt_succ h)).append_left package

theorem put_flatten (d : Dealing α) (hpos : 0 < d.idx) (item : α) :
    (d.put concurrency item).packages.flatten.Perm (d.packages.flatten ++ [item]) := by
  simp only [Dealing.put]
  split
  · exact modify_flatten _ (by omega) item
  · simp

theorem put_pos (d : Dealing α) (item : α) : 0 < (d.put concurrency item).idx := by
  simp only [Dealing.put]
  split <;> omega

theorem workPackages_perm (concurrency : ℚ) (list : List α) :
    (workPackages concurrency list).flatten.Perm list := by
  suffices h : 0 < (list.foldl (Dealing.put concurrency) ⟨1, []⟩).idx ∧
      (list.foldl (Dealing.put concurrency) ⟨1, []⟩).packages.flatten.Perm list from h.2
  induction list using List.reverseRecOn with
  | nil => exact ⟨Nat.one_pos, .refl _⟩
  | append_singleton list item ih =>
      simp only [List.foldl_append, List.foldl_cons, List.foldl_nil]
      exact ⟨put_pos _ item, (put_flatten _ ih.1 item).trans (ih.2.append_right [item])⟩

/-- How many packages there may be. -/
def width (concurrency : ℚ) : Nat := max 1 ⌊concurrency⌋₊

theorem width_pos (concurrency : ℚ) : 0 < width concurrency :=
  lt_of_lt_of_le Nat.one_pos (le_max_left _ _)

theorem past_width {n : Nat} (h : 1 < n) : concurrency < (n : ℚ) ↔ width concurrency < n := by
  rw [width, max_lt_iff, and_iff_right h]
  exact (Nat.floor_lt' (by omega)).symm

theorem succ_mod {k w : Nat} (hw : 0 < w) :
    (k + 1) % w = if k % w + 1 = w then 0 else k % w + 1 := by
  have hlt := Nat.mod_lt k hw
  rw [← Nat.mod_add_mod]
  split
  · rename_i hlast
    rw [hlast, Nat.mod_self]
  · exact Nat.mod_eq_of_lt (by omega)

theorem next_idx (concurrency : ℚ) (k : Nat) :
    (if concurrency < ((k % width concurrency + 1 + 1 : Nat) : ℚ) then 1
      else k % width concurrency + 1 + 1) = (k + 1) % width concurrency + 1 := by
  have hw := width_pos concurrency
  have hlt := Nat.mod_lt k hw
  simp only [past_width (Nat.lt_add_left (k % width concurrency) Nat.one_lt_two), succ_mod hw]
  split
  · rw [if_pos (by omega)]
  · rw [if_neg (by omega)]

/-- The size of package `j` of `k` items. -/
theorem size_succ {k w j : Nat} (hj : j < w) :
    (k + 1 + w - 1 - j) / w = (k + w - 1 - j) / w + if k % w = j then 1 else 0 := by
  have hstep : k + 1 + w - 1 - j = k + w - 1 - j + 1 := by omega
  have hdvd : w ∣ k + w - 1 - j + 1 ↔ k % w = j := by
    have hlt := Nat.mod_lt k (Nat.zero_lt_of_lt hj)
    have hsplit : k + w - 1 - j + 1 = w * (k / w) + (k % w + w - j) := by
      have := Nat.div_add_mod k w
      omega
    rw [hsplit, Nat.dvd_add_right (Nat.dvd_mul_right w _)]
    constructor
    · intro hdvd
      have := Nat.eq_of_dvd_of_lt_two_mul (by omega) hdvd (by omega)
      omega
    · intro heq
      rw [heq, Nat.add_sub_cancel_left]
  rw [hstep, Nat.succ_div]
  simp only [hdvd]

/-- What has been dealt after `k` items. -/
structure Dealt (w k : Nat) (d : Dealing α) : Prop where
  idx : d.idx = k % w + 1
  count : d.packages.length = min k w
  size : ∀ j, (hj : j < d.packages.length) → (d.packages[j]).length = (k + w - 1 - j) / w

theorem Dealt.put {k : Nat} {d : Dealing α} (h : Dealt (width concurrency) k d) (item : α) :
    Dealt (width concurrency) (k + 1) (d.put concurrency item) := by
  have hw := width_pos concurrency
  have hidx : (d.put concurrency item).idx = (k + 1) % width concurrency + 1 := by
    simp only [Dealing.put, h.idx, next_idx]
  have hcount := h.count
  by_cases hfull : k < width concurrency
  · have hmod : k % width concurrency = k := Nat.mod_eq_of_lt hfull
    have hpackages : (d.put concurrency item).packages = d.packages ++ [[item]] := by
      simp only [Dealing.put, h.idx, hmod]
      exact if_neg (by omega)
    refine ⟨hidx, ?_, ?_⟩
    · rw [hpackages, List.length_append, List.length_singleton]
      omega
    · rw [hpackages]
      intro j hj
      rw [size_succ (by simp at hj; omega), hmod]
      by_cases hold : j < d.packages.length
      · rw [List.getElem_append_left hold, h.size j hold, if_neg (by omega)]
        rfl
      · have hjk : j = k := by
          simp at hj
          omega
        rw [List.getElem_append_right (by omega), if_pos hjk.symm]
        have hzero : (k + width concurrency - 1 - j) / width concurrency = 0 :=
          Nat.div_eq_of_lt (by omega)
        rw [hzero]
        simp
  · have hlt := Nat.mod_lt k hw
    have hpackages : (d.put concurrency item).packages =
        d.packages.modify (k % width concurrency) (fun package => package ++ [item]) := by
      simp only [Dealing.put, h.idx]
      rw [if_pos (by omega), Nat.add_sub_cancel]
    refine ⟨hidx, ?_, ?_⟩
    · rw [hpackages, List.length_modify]
      omega
    · rw [hpackages]
      intro j hj
      rw [List.length_modify] at hj
      rw [List.getElem_modify, size_succ (by omega), ← h.size j hj]
      split
      · rw [List.length_append]
        rfl
      · rfl

theorem dealt_all (concurrency : ℚ) (list : List α) :
    Dealt (width concurrency) list.length
      (list.foldl (Dealing.put concurrency) ⟨1, []⟩) := by
  induction list using List.reverseRecOn with
  | nil =>
      exact ⟨by simp, by simp, fun j hj => absurd hj (Nat.not_lt_zero j)⟩
  | append_singleton list item ih =>
      simp only [List.foldl_append, List.foldl_cons, List.foldl_nil, List.length_append,
        List.length_singleton]
      exact ih.put item

theorem workPackages_size (concurrency : ℚ) (list : List α) {package : List α}
    (h : package ∈ workPackages concurrency list) :
    list.length / width concurrency ≤ package.length ∧
      package.length ≤ (list.length + width concurrency - 1) / width concurrency := by
  have hdealt := dealt_all concurrency list
  obtain ⟨j, hj, heq⟩ := List.mem_iff_getElem.mp h
  have hcount : (workPackages concurrency list).length = min list.length (width concurrency) :=
    hdealt.count
  have hsize : package.length =
      (list.length + width concurrency - 1 - j) / width concurrency := by
    rw [← heq]
    exact hdealt.size j hj
  rw [hsize]
  exact ⟨Nat.div_le_div_right (by omega), Nat.div_le_div_right (by omega)⟩

end Packages

section Round
variable {α : Type} [DecidableEq α] {checks : Checks} {wire : α → Wire}

theorem probeAll_apply {order : List α} (hnodup : order.Nodup) (s : α → Healthcheck.Target)
    (a : α) : probeAll checks wire s order a =
      if a ∈ order then probed checks (wire a) (s a) else s a := by
  induction order generalizing s with
  | nil => rfl
  | cons b order ih =>
      have hrest := ih (List.nodup_cons.mp hnodup).2 (probe checks wire s b)
      rw [probeAll, List.foldl_cons, ← probeAll, hrest]
      by_cases hab : a = b
      · subst hab
        rw [if_neg (List.nodup_cons.mp hnodup).1, if_pos (List.mem_cons_self ..), probe,
          Function.update_self]
      · have hmem : a ∈ b :: order ↔ a ∈ order := by simp [hab]
        rw [probe, Function.update_of_ne hab]
        simp only [hmem]

end Round

theorem mem_listToCheck {mode : Mode} {list : List Entry} {t : Targets} {name : Name} :
    name ∈ (listToCheck mode list t).map Entry.name ↔
      name ∈ list.map Entry.name ∧ mode.of ((t.find name).bind id) = true := by
  simp only [listToCheck, List.mem_map, List.mem_filter]
  constructor
  · intro hmem
    obtain ⟨e, he, heq⟩ := hmem
    rw [← heq]
    exact ⟨⟨e, he.1, rfl⟩, he.2⟩
  · intro hmem
    obtain ⟨⟨e, he, heq⟩, hmode⟩ := hmem
    rw [← heq] at hmode
    exact ⟨e, ⟨he, hmode⟩, heq⟩

/-- However many threads there are, and however they interleave: a round of active checks steps
each listed target of its mode once, by the report of its own check, and no other target. The
packages are as many as the concurrency allows, and of one size but for one target. -/
theorem round_once {ok : HealthTargets.Cluster → HealthTargets.Label → Prop}
    {C : HealthTargets.Cluster} (h : HealthTargets.Reaches ok C) (w : HealthTargets.Worker)
    (mode : Mode) (checks : Checks) (concurrency : ℚ) (wire : Name → Wire)
    (s : Name → Healthcheck.Target) :
    (workPackages concurrency (listToCheck mode C.list w.targets)).length =
        min (listToCheck mode C.list w.targets).length (width concurrency) ∧
      (∀ package ∈ workPackages concurrency (listToCheck mode C.list w.targets),
        (listToCheck mode C.list w.targets).length / width concurrency ≤ package.length ∧
        package.length ≤ ((listToCheck mode C.list w.targets).length + width concurrency - 1) /
          width concurrency) ∧
      ∀ order : List Entry,
        order.Perm (workPackages concurrency (listToCheck mode C.list w.targets)).flatten →
        ∀ name, probeAll checks wire s (order.map Entry.name) name =
          if name ∈ C.names ∧ mode.of ((w.targets.find name).bind id) = true then
            probed checks (wire name) (s name)
          else s name := by
  refine ⟨(dealt_all _ _).count, fun package => workPackages_size _ _, ?_⟩
  intro order horder name
  have hperm := (horder.trans (workPackages_perm _ _)).map Entry.name
  have hagree : HealthTargets.Agree False C :=
    HealthTargets.agree_run (fun _ _ _ hfalse => hfalse.elim) h
  have hnodup : (order.map Entry.name).Nodup :=
    hperm.nodup_iff.mpr (hagree.nodup.sublist (List.filter_sublist.map Entry.name))
  rw [probeAll_apply hnodup]
  simp only [hperm.mem_iff, mem_listToCheck]
  rfl

theorem healthy_one : ∃ (C : HealthTargets.Cluster) (w : HealthTargets.Worker),
    HealthTargets.Reaches (fun _ _ => True) C ∧ C.workers = [w] ∧
    C.names = [⟨"10.0.0.1", 80, "10.0.0.1"⟩] ∧
    w.targets.find ⟨"10.0.0.1", 80, "10.0.0.1"⟩ = some (some .healthy) := by
  have h₁ := HealthTargets.Reaches.step (l := .load)
    (@HealthTargets.Reaches.start (fun _ _ => True)) trivial rfl
  have h₂ := HealthTargets.Reaches.step (l := .subscribe 0) h₁ trivial rfl
  have h₃ := HealthTargets.Reaches.step (l := .add 0 ⟨"10.0.0.1", 80, none⟩ true none) h₂ trivial
    rfl
  have h₄ := HealthTargets.Reaches.step (l := .post) h₃ trivial rfl
  have h₅ := HealthTargets.Reaches.step (l := .handle 0) h₄ trivial rfl
  exact ⟨_, _, h₅, rfl, rfl, rfl⟩

theorem round_once_one : ∃ (C : HealthTargets.Cluster) (w : HealthTargets.Worker),
    HealthTargets.Reaches (fun _ _ => True) C ∧ C.names = [⟨"10.0.0.1", 80, "10.0.0.1"⟩] ∧
    ∀ wire s (order : List Entry),
      order.Perm (workPackages 10 (listToCheck .healthy C.list w.targets)).flatten →
      probeAll Healthcheck.getDefaults wire s (order.map Entry.name)
          ⟨"10.0.0.1", 80, "10.0.0.1"⟩ =
        probed Healthcheck.getDefaults (wire ⟨"10.0.0.1", 80, "10.0.0.1"⟩)
          (s ⟨"10.0.0.1", 80, "10.0.0.1"⟩) := by
  obtain ⟨C, w, hreach, _, hnames, hfind⟩ := healthy_one
  refine ⟨C, w, hreach, hnames, fun wire s order horder => ?_⟩
  have hround := (round_once hreach w .healthy Healthcheck.getDefaults 10 wire s).2.2 order horder
    ⟨"10.0.0.1", 80, "10.0.0.1"⟩
  rw [hround, if_pos]
  rw [hnames, hfind]
  exact ⟨List.mem_singleton_self _, rfl⟩

/-! ### The status line -/

def Run (p : Char → Bool) (cs : List Char) : Prop := cs ≠ [] ∧ ∀ c ∈ cs, p c = true

/-- A line with `digits` for its status; what comes after the digits is not read. -/
def StatusLine (line digits : List Char) : Prop :=
  ∃ http major minor spaces rest,
    line = http ++ (major ++ '.' :: (minor ++ (spaces ++ (digits ++ rest)))) ∧
    isHttp http = true ∧ Run Char.isDigit major ∧ Run Char.isDigit minor ∧
    Run isSpace spaces ∧ Run Char.isDigit digits ∧
    ∀ c, rest.head? = some c → c.isDigit = false

section Spans
variable {p : Char → Bool} {cs rest : List Char}

theorem takeWhile_run (h : Run p cs) (hrest : ∀ c, rest.head? = some c → p c = false) :
    (cs ++ rest).takeWhile p = cs := by
  have hstop : rest.takeWhile p = [] := by
    cases rest with
    | nil => rfl
    | cons c rest => simp [hrest c rfl]
  rw [List.takeWhile_append_of_pos h.2, hstop, List.append_nil]

theorem dropWhile_run (h : Run p cs) (hrest : ∀ c, rest.head? = some c → p c = false) :
    (cs ++ rest).dropWhile p = rest := by
  rw [List.dropWhile_append_of_pos h.2]
  cases rest with
  | nil => rfl
  | cons c rest => simp [hrest c rfl]

theorem run_takeWhile (h : cs.takeWhile p ≠ []) : Run p (cs.takeWhile p) :=
  ⟨h, List.all_eq_true.mp List.all_takeWhile⟩

theorem Run.head (h : Run p cs) (rest : List Char) {q : Char → Bool}
    (hpq : ∀ c, p c = true → q c = false) : ∀ c, (cs ++ rest).head? = some c → q c = false := by
  intro c hc
  rw [List.head?_append_of_ne_nil _ h.1] at hc
  exact hpq c (h.2 c (List.mem_of_mem_head? hc))

theorem head_dropWhile (cs : List Char) :
    ∀ c, (cs.dropWhile p).head? = some c → p c = false := by
  intro c hc
  have hstop := List.head?_dropWhile_not p cs
  rw [hc] at hstop
  exact hstop

end Spans

theorem not_isDigit {c : Char} (h : isSpace c = true) : c.isDigit = false := by
  cases hdigit : c.isDigit with
  | false => rfl
  | true => exact absurd h (by rw [not_isSpace hdigit]; decide)

theorem statusDigits_iff (line digits : List Char) :
    statusDigits line = some digits ↔ StatusLine line digits := by
  constructor
  · intro h
    simp only [statusDigits] at h
    split at h
    · rename_i hall
      obtain ⟨hhttp, hmajor, hdot, hminor, hspaces, hdigits⟩ := hall
      cases h
      have hpoint : (line.drop 5).dropWhile Char.isDigit =
          '.' :: ((line.drop 5).dropWhile Char.isDigit).drop 1 := by
        rw [List.drop_one]
        exact (List.cons_head?_tail hdot).symm
      have hrest := head_dropWhile (p := Char.isDigit)
        (((((line.drop 5).dropWhile Char.isDigit).drop 1).dropWhile Char.isDigit).dropWhile isSpace)
      refine ⟨line.take 5, _, _, _, _, ?_, hhttp, run_takeWhile hmajor, run_takeWhile hminor,
        run_takeWhile hspaces, run_takeWhile hdigits, hrest⟩
      rw [List.takeWhile_append_dropWhile, List.takeWhile_append_dropWhile,
        List.takeWhile_append_dropWhile, ← hpoint, List.takeWhile_append_dropWhile,
        List.take_append_drop]
    · cases h
  · intro h
    obtain ⟨http, major, minor, spaces, rest, hline, hhttp, hmajor, hminor, hspaces, hdigits,
      hrest⟩ := h
    have hlength : http.length = 5 := by
      have hmap := congrArg List.length (of_decide_eq_true hhttp)
      simpa using hmap
    have hspace := hdigits.head rest (fun _ => not_isSpace)
    have hdigit := hspaces.head (digits ++ rest) (fun _ => not_isDigit)
    have hdot : ∀ c, ('.' :: (minor ++ (spaces ++ (digits ++ rest)))).head? = some c →
        c.isDigit = false := by
      intro c hc
      cases hc
      rfl
    simp only [statusDigits, hline, List.take_left' hlength, List.drop_left' hlength,
      takeWhile_run hmajor hdot, dropWhile_run hmajor hdot, List.drop_one, List.tail_cons,
      takeWhile_run hminor hdigit, dropWhile_run hminor hdigit, takeWhile_run hspaces hspace,
      dropWhile_run hspaces hspace, takeWhile_run hdigits hrest]
    exact if_pos ⟨hhttp, hmajor.1, rfl, hminor.1, hspaces.1, hdigits.1⟩

/-- The status is read from the lines that have one, and is the number its digits write. -/
theorem status_iff (line : String) (v : ℚ) :
    status line = some v ↔
      ∃ digits, StatusLine line.toList digits ∧ v = (decimal digits : ℚ) := by
  simp only [← statusDigits_iff, status, Option.bind_eq_some_iff]
  constructor
  · intro h
    obtain ⟨digits, hdigits, hv⟩ := h
    obtain ⟨_, _, _, _, _, _, _, _, _, _, hrun, _⟩ := (statusDigits_iff _ _).mp hdigits
    rw [tonumber_digits hrun.1 hrun.2] at hv
    exact ⟨digits, hdigits, (Option.some.inj hv).symm⟩
  · intro h
    obtain ⟨digits, hdigits, hv⟩ := h
    obtain ⟨_, _, _, _, _, _, _, _, _, _, hrun, _⟩ := (statusDigits_iff _ _).mp hdigits
    exact ⟨digits, hdigits, by rw [tonumber_digits hrun.1 hrun.2, hv]⟩

theorem failed_report (err : String) (status : Option ℚ) :
    (failed err).report ≠ some (.httpStatus status .active) := by
  simp only [failed]
  split <;> simp

theorem exchange_reports (w : Wire) (status' : Option ℚ) :
    (exchange w).report = some (.httpStatus status' .active) ↔
      w.send = .ok () ∧ ∃ line, w.receive = .ok line ∧ status line = status' := by
  cases hsend : w.send with
  | error err => simp [exchange, hsend, failed_report]
  | ok sent =>
      cases hreceive : w.receive with
      | error err => simp [exchange, hsend, hreceive, failed_report]
      | ok line => simp [exchange, hsend, hreceive]

/-- A check reports a status exactly where every call on the socket succeeds, the handshake
where there is one included, and the line received starts with a version and that status. -/
theorem reports_status (checks : Checks) (w : Wire) (v : ℚ) :
    (runSingleCheck checks w).report = some (.httpStatus (some v) .active) ↔
      w.tcp = .ok () ∧ w.connect = .ok () ∧ checks.active.type ≠ .tcp ∧
      (checks.active.type = .https → w.handshake = .ok ()) ∧ w.send = .ok () ∧
      ∃ line digits, w.receive = .ok line ∧ StatusLine line.toList digits ∧
        v = (decimal digits : ℚ) := by
  have hline : (∃ line, w.receive = .ok line ∧ status line = some v) ↔
      ∃ line digits, w.receive = .ok line ∧ StatusLine line.toList digits ∧
        v = (decimal digits : ℚ) := by
    simp only [status_iff, exists_and_left]
  rw [← hline, ← exchange_reports]
  cases htcp : w.tcp with
  | error err => simp [runSingleCheck, htcp]
  | ok created =>
      cases hconnect : w.connect with
      | error err => simp [runSingleCheck, htcp, hconnect, failed_report]
      | ok connected =>
          cases htype : checks.active.type with
          | tcp => simp [runSingleCheck, htcp, hconnect, htype]
          | http => simp [runSingleCheck, htcp, hconnect, htype]
          | https =>
              cases hhandshake : w.handshake with
              | error err => simp [runSingleCheck, htcp, hconnect, htype, hhandshake]
              | ok shaken => simp [runSingleCheck, htcp, hconnect, htype, hhandshake]

end HealthProbes
end OpenrestyGateway
