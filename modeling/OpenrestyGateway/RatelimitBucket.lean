import OpenrestyGateway.Ratelimit

/-!
One key of the request limiter under calls that do not overlap.

`Bucket` is what the key stands for: no record, the record of an admission, or a
ban. `Bucket.call` says what a call at a given time does to it, and the calls of
the limiter on the store refine it.
-/
namespace OpenrestyGateway
open Interleaving

inductive Bucket where
  | empty
  | running (excess last : ℚ)
  | banned (excess since : ℚ)

namespace Bucket

/-- The excess of a call at time `t` after an admission at time `last`. -/
def excessAt (lim : RateLim) (excess last t : ℚ) : ℚ :=
  max 0 (excess - lim.rate * |t - last| + 1000)

/-- A record lives for 60 seconds, a ban for its duration; a duration that is not
a whole number of seconds is no lifetime at all. -/
def settle (lim : RateLim) (t : ℚ) : Bucket → Bucket
  | .empty => .empty
  | .running e last => if t < last + 60 then .running e last else .empty
  | .banned x since =>
      if lim.duration.den = 1 ∧ since + lim.duration ≤ t then .empty else .banned x since

def call (lim : RateLim) (t : ℚ) (b : Bucket) : Bool × Bucket :=
  match b.settle lim t with
  | .empty => (true, .running 0 t)
  | .running e last =>
      if lim.burst < excessAt lim e last t then
        (false, if 0 < lim.duration then .banned (excessAt lim e last t) t else b)
      else (true, .running (excessAt lim e last t) t)
  | .banned _ _ => (false, b)

/-- What a call at time `t` decides. -/
def verdict (lim : RateLim) (t : ℚ) (b : Bucket) : RateLim.Verdict :=
  match b.settle lim t with
  | .empty => .pass 0
  | .running e last =>
      if lim.burst < excessAt lim e last t then .busy (excessAt lim e last t)
      else .pass (excessAt lim e last t)
  | .banned _ _ => .forbidden

def after (lim : RateLim) (b : Bucket) (ts : List ℚ) : Bucket :=
  ts.foldl (fun b t => (b.call lim t).2) b

/-- The times of the admitted calls. -/
def admits (lim : RateLim) : Bucket → List ℚ → List ℚ
  | _, [] => []
  | b, t :: ts =>
      if (b.call lim t).1 then t :: admits lim (b.call lim t).2 ts
      else admits lim (b.call lim t).2 ts

@[simp] theorem after_nil (lim : RateLim) (b : Bucket) : b.after lim [] = b := rfl

@[simp] theorem after_cons (lim : RateLim) (b : Bucket) (t : ℚ) (ts : List ℚ) :
    b.after lim (t :: ts) = (b.call lim t).2.after lim ts := rfl

theorem admits_append (lim : RateLim) (b : Bucket) (ts us : List ℚ) :
    b.admits lim (ts ++ us) = b.admits lim ts ++ (b.after lim ts).admits lim us := by
  induction ts generalizing b with
  | nil => rfl
  | cons t ts ih =>
      simp only [List.cons_append, admits, after_cons, ih]
      split <;> rfl

def cell (lim : RateLim) : Bucket → Option (Datum × Option ℚ)
  | .empty => none
  | .running e last => some (.str (RateLim.record e (last * 1000) false), some (last + 60))
  | .banned x since =>
      some (.str (RateLim.record x (since * 1000) true),
        if lim.duration.den = 1 then some (since + lim.duration) else none)

end Bucket

namespace RateLim
open Bucket

/-- One call at time `t`, alone on the server and without failures. -/
def callAt (lim : RateLim) (key : String) (t : ℚ) (s : RedisStore) :
    Except Stop Incoming × RedisStore :=
  Prog.run (fun s o => execOp s none o) { s with clock := t } (lim.incoming key)

def admissions (lim : RateLim) (key : String) : RedisStore → List ℚ → List ℚ
  | _, [] => []
  | s, t :: ts =>
      if isGranted (callAt lim key t s).1 then t :: admissions lim key (callAt lim key t s).2 ts
      else admissions lim key (callAt lim key t s).2 ts

theorem cell_expire (s : RedisStore) (key : String) (t : Text) (seconds : ℚ) :
    (Redis.exec (Redis.exec s (.set key t)).2 (.expire key seconds)).2.cell key =
      some (.str t, if seconds.den = 1 then some (s.clock + seconds) else none) := by
  have hset : (s.put key (.str t)).entry key = some (.str t, none) :=
    Ttl.Store.entry_put_self s key _
  simp only [Redis.exec, Ttl.Store.lookup, hset, Option.map_some]
  by_cases hd : seconds.den = 1
  · simp [hd, Ttl.Store.expire, hset, Ttl.Store.write]
  · simp [hd, Ttl.Store.put, Ttl.Store.write]

/-- The milliseconds of the record are the seconds of the clock. -/
theorem weigh_running (lim : RateLim) (t e last : ℚ) :
    weigh lim (t * 1000) (.str (record e (last * 1000) false)) =
      if lim.burst < excessAt lim e last t then .ok (.busy (excessAt lim e last t))
      else .ok (.pass (excessAt lim e last t)) := by
  have hms : lim.rate * |t * 1000 - last * 1000| / 1000 = lim.rate * |t - last| := by
    rw [← sub_mul, abs_mul, abs_of_pos (by norm_num : (0 : ℚ) < 1000)]
    ring
  rw [weigh_record, hms]
  rfl

section Call
variable (lim : RateLim) (key : String) (t : ℚ) {s : RedisStore} {b : Bucket}

theorem get_settle (h : s.cell key = b.cell lim) :
    Redis.exec { s with clock := t } (.get key) =
      (match (b.settle lim t).cell lim with
        | some (.str v, _) => ⟨.str v, none⟩
        | _ => ⟨.nil, none⟩, { s with clock := t }) := by
  have hlookup : Ttl.Store.lookup { s with clock := t } key =
      ((b.settle lim t).cell lim).map Prod.fst := by
    simp only [Ttl.Store.lookup, Ttl.Store.entry, h]
    cases b with
    | empty => rfl
    | running e last =>
        by_cases hlive : t < last + 60 <;>
          simp [Bucket.settle, Bucket.cell, Ttl.Store.alive, hlive]
    | banned x since =>
        by_cases hd : lim.duration.den = 1
        · by_cases hlive : t < since + lim.duration <;>
            simp [Bucket.settle, Bucket.cell, Ttl.Store.alive, hd, hlive, not_lt.mp, not_le.mpr]
        · simp [Bucket.settle, Bucket.cell, Ttl.Store.alive, hd]
  simp only [Redis.exec, hlookup]
  cases b.settle lim t <;> rfl

theorem run_writeBack (s : RedisStore) (a : Incoming) (w : Option (Text × ℚ)) :
    (Prog.run (fun s o => execOp s none o) s (writeBack key a w)).1 = .ok a ∧
      (Prog.run (fun s o => execOp s none o) s (writeBack key a w)).2.cell key =
        match w with
        | none => s.cell key
        | some (v, seconds) =>
            some (.str v, if seconds.den = 1 then some (s.clock + seconds) else none) := by
  cases w with
  | none => exact ⟨rfl, rfl⟩
  | some w => exact ⟨rfl, cell_expire s key w.1 w.2⟩

theorem weigh_settle :
    weigh lim (t * 1000)
        (match (b.settle lim t).cell lim with
          | some (.str v, _) => (⟨.str v, none⟩ : Reply)
          | _ => ⟨.nil, none⟩).res =
      .ok (b.verdict lim t) := by
  cases hb : b.settle lim t with
  | empty =>
      simp only [Bucket.verdict, hb]
      rfl
  | running e last =>
      simp only [Bucket.verdict, hb, Bucket.cell, weigh_running]
      split <;> rfl
  | banned x since =>
      simp only [Bucket.verdict, hb]
      rfl

/-- A call on a store that holds a bucket answers and writes by the bucket's verdict. -/
theorem callAt_eq (h : s.cell (lim.recordKey key) = b.cell lim) :
    callAt lim key t s = Prog.run (fun s o => execOp s none o) { s with clock := t }
      (writeBack (lim.recordKey key) ((b.verdict lim t).answer lim)
        ((b.verdict lim t).write lim (t * 1000))) := by
  have hget := get_settle lim (lim.recordKey key) t h
  simp only [callAt, incoming_eq, Prog.run_call, execOp, hget, afterGet, weigh_settle]

/-- A call on a store that holds a bucket does what the bucket does. -/
theorem callAt_refines (h : s.cell (lim.recordKey key) = b.cell lim) :
    isGranted (callAt lim key t s).1 = (b.call lim t).1 ∧
      (callAt lim key t s).2.cell (lim.recordKey key) = (b.call lim t).2.cell lim := by
  obtain ⟨hanswer, hcell⟩ := run_writeBack (lim.recordKey key) { s with clock := t }
    ((b.verdict lim t).answer lim) ((b.verdict lim t).write lim (t * 1000))
  rw [callAt_eq lim key t h, hanswer, hcell]
  cases hb : b.settle lim t with
  | empty =>
      simp only [Bucket.call, Bucket.verdict, hb]
      exact ⟨rfl, rfl⟩
  | running e last =>
      simp only [Bucket.call, Bucket.verdict, hb]
      by_cases hover : lim.burst < excessAt lim e last t
      · simp only [if_pos hover, Verdict.write]
        by_cases hban : 0 < lim.duration
        · simp only [if_pos hban]
          exact ⟨rfl, rfl⟩
        · simp only [if_neg hban]
          exact ⟨rfl, h⟩
      · simp only [if_neg hover]
        exact ⟨rfl, rfl⟩
  | banned x since =>
      simp only [Bucket.call, Bucket.verdict, hb]
      exact ⟨rfl, h⟩

/-- The calls on one key, from a store without its record, are those of an empty
bucket. -/
theorem admissions_eq (ts : List ℚ) (h : s.cell (lim.recordKey key) = b.cell lim) :
    admissions lim key s ts = b.admits lim ts := by
  induction ts generalizing s b with
  | nil => rfl
  | cons t ts ih =>
      obtain ⟨hgrant, hcell⟩ := callAt_refines lim key t h
      simp only [admissions, Bucket.admits, hgrant, ih hcell]

end Call

end RateLim
end OpenrestyGateway
