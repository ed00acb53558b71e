import OpenrestyGateway.DecimalText
import OpenrestyGateway.Library.Calendar

/-!
The period of an access rule, access/timestamp_rule.lua: a range of dates and the
hours of each day.

Local time is a fixed number of seconds ahead of UTC, and os.time and os.date
convert by it. The texts that os.date gives for a year, a month and a day are read
back as the numbers they write.
-/
namespace OpenrestyGateway
open Calendar

namespace TimestampRule

structure DenyConf where
  startDate : Val
  stopDate : Val
  effectiveTime : Val

def osTime (offset year month day hour min sec : Int) : Int :=
  dayNumber year month day * 86400 + hour * 3600 + min * 60 + sec - offset

def osDate (offset now : Int) : Date := .ofNumber ((now + offset) / 86400)

/-! ### The patterns `(%d+)-(%d+)-(%d+)` and `(%d+):(%d+):(%d+)` -/

/-- A digit run is taken whole: what follows in the pattern is no digit. -/
def digitRun (cs : List Char) : Option (List Char × List Char) :=
  match cs.takeWhile Char.isDigit with
  | [] => none
  | c :: run => some (c :: run, cs.dropWhile Char.isDigit)

def literal (sep : Char) : List Char → Option (List Char)
  | [] => none
  | c :: cs => if c = sep then some cs else none

def matchAt (sep : Char) (cs : List Char) : Option (List Char × List Char × List Char) := do
  let (first, cs) ← digitRun cs
  let cs ← literal sep cs
  let (second, cs) ← digitRun cs
  let cs ← literal sep cs
  let (third, _) ← digitRun cs
  return (first, second, third)

def matchFields (sep : Char) : List Char → Option (List Char × List Char × List Char)
  | [] => none
  | c :: cs => (matchAt sep (c :: cs)).or (matchFields sep cs)

/-- `v:match(pattern)` -/
def callMatch (sep : Char) : Val → Except LuaError (Option (List Char × List Char × List Char))
  | .str s => .ok (matchFields sep s.toList)
  | .arr _ => .error (.call .nil)
  | .obj fs => .error (.call ((fs.lookup "match").getD .nil).type)
  | v => .error (.index v.type)

/-- `tonumber` of a digit run is the number it writes. Without a match the fields are
missing, which os.time does not accept. -/
def parseDate (offset : Int) (date : Val) : Except LuaError Int := do
  match ← callMatch '-' date with
  | some (year, month, day) =>
      return osTime offset (decimal year) (decimal month) (decimal day) 0 0 0
  | none => throw (.badArgument "time" .nil)

def parseTime (time : Val) : Except LuaError Int := do
  match ← callMatch ':' time with
  | some (hour, min, sec) => return decimal hour * 3600 + decimal min * 60 + decimal sec
  | none => throw (.arith .nil)

def timestampLogic (offset now : Int) (denyConf : DenyConf) : Except LuaError Bool := do
  let startTimestamp ← parseDate offset denyConf.startDate
  let stopDate ← parseDate offset denyConf.stopDate
  let stopTimestamp := stopDate + 86400
  let startTime ← parseTime (← denyConf.effectiveTime.at' 1)
  let stopTime ← parseTime (← denyConf.effectiveTime.at' 2)
  let today := osDate offset now
  let todayZero := osTime offset today.year today.month today.day 0 0 0
  let currentTime := now - todayZero
  if startTimestamp ≤ now ∧ now ≤ stopTimestamp then
    if startTime ≤ currentTime ∧ currentTime ≤ stopTime then return true
    else return false
  else return false

/-! ### Well-formed texts -/

/-- A date of the calendar written in decimal digits. -/
structure DateText where
  year : Digits
  month : Digits
  day : Digits
  date : Date
  year_eq : date.year = year.value
  month_eq : date.month = month.value
  day_eq : date.day = day.value

structure TimeText where
  hour : Decimal 23
  min : Decimal 59
  sec : Decimal 59

def fieldsText (sep : Char) (first second third : Digits) : String :=
  String.ofList (first.chars ++ sep :: (second.chars ++ sep :: third.chars))

def DateText.text (d : DateText) : String := fieldsText '-' d.year d.month d.day

def TimeText.text (t : TimeText) : String :=
  fieldsText ':' t.hour.toDigits t.min.toDigits t.sec.toDigits

/-- The seconds since midnight. -/
def TimeText.seconds (t : TimeText) : Int :=
  t.hour.value * 3600 + t.min.value * 60 + t.sec.value

def timeOfDay (offset now : Int) : Int := (now + offset) % 86400

theorem digitRun_append (n : Digits) {rest : List Char}
    (h : ∀ c ∈ rest.head?, c.isDigit = false) :
    digitRun (n.chars ++ rest) = some (n.chars, rest) := by
  have hrest : rest.takeWhile Char.isDigit = [] ∧ rest.dropWhile Char.isDigit = rest := by
    cases rest with
    | nil => exact ⟨rfl, rfl⟩
    | cons c rest =>
        have hc := h c rfl
        constructor
        · rw [List.takeWhile_cons, hc]
          rfl
        · rw [List.dropWhile_cons, hc]
          rfl
  have htake : (n.chars ++ rest).takeWhile Char.isDigit = n.chars := by
    rw [List.takeWhile_append_of_pos n.isDigit, hrest.1, List.append_nil]
  have hdrop : (n.chars ++ rest).dropWhile Char.isDigit = rest := by
    rw [List.dropWhile_append_of_pos n.isDigit, hrest.2]
  have hne := n.ne_nil
  simp only [digitRun, htake, hdrop]
  cases hn : n.chars with
  | nil => exact absurd hn hne
  | cons c run => rfl

theorem matchFields_text (sep : Char) (hsep : sep.isDigit = false) (first second third : Digits) :
    matchFields sep (fieldsText sep first second third).toList =
      some (first.chars, second.chars, third.chars) := by
  have hhead : ∀ rest : List Char, ∀ c ∈ (sep :: rest).head?, c.isDigit = false := by
    intro rest c hc
    cases hc
    exact hsep
  have hlast : digitRun third.chars = some (third.chars, []) := by
    simpa using digitRun_append third (fun c (hc : c ∈ ([] : List Char).head?) => by cases hc)
  have hmatch : matchAt sep (first.chars ++ sep :: (second.chars ++ sep :: third.chars)) =
      some (first.chars, second.chars, third.chars) := by
    simp only [matchAt, digitRun_append first (hhead _), digitRun_append second (hhead _),
      hlast, literal, if_true, Option.bind_eq_bind, Option.bind_some]
    rfl
  rw [fieldsText, String.toList_ofList]
  generalize first.chars ++ sep :: (second.chars ++ sep :: third.chars) = cs at hmatch
  cases cs with
  | nil => cases hmatch
  | cons c cs =>
      simp only [matchFields, hmatch]
      rfl

theorem parseDate_text (offset : Int) (d : DateText) :
    parseDate offset (.str d.text) = .ok (d.date.number * 86400 - offset) := by
  have hfields : osTime offset d.year.value d.month.value d.day.value 0 0 0 =
      d.date.number * 86400 - offset := by
    simp only [osTime, Date.number, d.year_eq, d.month_eq, d.day_eq]
    omega
  rw [← hfields]
  simp only [parseDate, callMatch, DateText.text, matchFields_text '-' rfl, bind,
    Except.bind]
  rfl

theorem parseTime_text (t : TimeText) : parseTime (.str t.text) = .ok t.seconds := by
  simp only [parseTime, callMatch, TimeText.text, matchFields_text ':' rfl, bind,
    Except.bind]
  rfl

theorem timestampLogic_eq (offset now : Int) (start stop : DateText) (a b : TimeText) :
    timestampLogic offset now
        ⟨.str start.text, .str stop.text, .arr [.str a.text, .str b.text]⟩ =
      .ok (decide ((start.date.number * 86400 ≤ now + offset ∧
        now + offset ≤ (stop.date.number + 1) * 86400) ∧
        a.seconds ≤ timeOfDay offset now ∧ timeOfDay offset now ≤ b.seconds)) := by
  have htoday : now - osTime offset (osDate offset now).year (osDate offset now).month
      (osDate offset now).day 0 0 0 = timeOfDay offset now := by
    have hnumber := Date.number_ofNumber ((now + offset) / 86400)
    simp only [Date.number] at hnumber
    simp only [osTime, osDate, timeOfDay, hnumber]
    omega
  have hstart : start.date.number * 86400 - offset ≤ now ↔
      start.date.number * 86400 ≤ now + offset := by omega
  have hstop : now ≤ stop.date.number * 86400 - offset + 86400 ↔
      now + offset ≤ (stop.date.number + 1) * 86400 := by omega
  have hfirst : Val.at' (.arr [.str a.text, .str b.text]) 1 = .ok (.str a.text) := rfl
  have hsecond : Val.at' (.arr [.str a.text, .str b.text]) 2 = .ok (.str b.text) := rfl
  simp only [timestampLogic, parseDate_text, hfirst, hsecond, parseTime_text, bind, Except.bind,
    htoday, hstart, hstop]
  by_cases hdate : start.date.number * 86400 ≤ now + offset ∧
      now + offset ≤ (stop.date.number + 1) * 86400
  · by_cases htime : a.seconds ≤ timeOfDay offset now ∧ timeOfDay offset now ≤ b.seconds
    · simp only [hdate, htime, and_self, if_true, decide_true]
      rfl
    · simp only [hdate, htime, and_self, if_true, and_false, if_false, decide_false]
      rfl
  · simp only [hdate, if_false, false_and, decide_false]
    rfl

/-- The instants that the dates and hours of a rule mean. -/
def Within (offset now : Int) (start stop : Date) (a b : TimeText) : Prop :=
  (start.le (osDate offset now) ∧ (osDate offset now).le stop) ∧
    a.seconds ≤ timeOfDay offset now ∧ timeOfDay offset now ≤ b.seconds

/-- The rule says what its dates and hours mean, except at the first second of the day
after the last one, for hours that begin at midnight. -/
theorem timestampLogic_iff (offset now : Int) {start stop : DateText} (a b : TimeText)
    (h : start.date.le stop.date) :
    (timestampLogic offset now
        ⟨.str start.text, .str stop.text, .arr [.str a.text, .str b.text]⟩ = .ok true ↔
      Within offset now start.date stop.date a b) ↔
      ¬ (now + offset = (stop.date.number + 1) * 86400 ∧ a.seconds = 0) := by
  have horder := (Date.number_le_iff start.date stop.date).mpr h
  have hseconds : ∀ t : TimeText, 0 ≤ t.seconds := by
    intro t
    simp only [TimeText.seconds]
    omega
  have ha := hseconds a
  have hb := hseconds b
  rw [timestampLogic_eq, Except.ok.injEq, decide_eq_true_iff, Within, ← Date.number_le_iff,
    ← Date.number_le_iff, osDate, Date.number_ofNumber, timeOfDay]
  omega

/-- The last second of a period. -/
theorem timestampLogic_iff_last : ∃ (start stop : DateText) (a b : TimeText),
    start.text = "2024-02-01" ∧ stop.text = "2024-02-29" ∧
    a.text = "00:00:00" ∧ b.text = "23:59:59" ∧
    (timestampLogic 28800 1709222399
        ⟨.str start.text, .str stop.text, .arr [.str a.text, .str b.text]⟩ = .ok true ↔
      Within 28800 1709222399 start.date stop.date a b) := by
  refine ⟨⟨.ofChars ['2', '0', '2', '4'] ⟨rfl, rfl⟩, .ofChars ['0', '2'] ⟨rfl, rfl⟩,
      .ofChars ['0', '1'] ⟨rfl, rfl⟩,
      ⟨2024, 2, 1, by decide, by decide, by decide, by decide⟩, rfl, rfl, rfl⟩,
    ⟨.ofChars ['2', '0', '2', '4'] ⟨rfl, rfl⟩, .ofChars ['0', '2'] ⟨rfl, rfl⟩,
      .ofChars ['2', '9'] ⟨rfl, rfl⟩,
      ⟨2024, 2, 29, by decide, by decide, by decide, by decide⟩, rfl, rfl, rfl⟩,
    ⟨⟨.ofChars ['0', '0'] ⟨rfl, rfl⟩, by decide⟩, ⟨.ofChars ['0', '0'] ⟨rfl, rfl⟩, by decide⟩,
      ⟨.ofChars ['0', '0'] ⟨rfl, rfl⟩, by decide⟩⟩,
    ⟨⟨.ofChars ['2', '3'] ⟨rfl, rfl⟩, by decide⟩, ⟨.ofChars ['5', '9'] ⟨rfl, rfl⟩, by decide⟩,
      ⟨.ofChars ['5', '9'] ⟨rfl, rfl⟩, by decide⟩⟩,
    by decide, by decide, by decide, by decide, ?_⟩
  exact (timestampLogic_iff 28800 1709222399 _ _ (by decide)).mpr (by decide +kernel)

/-- At midnight after the last day of May, with hours from midnight to eight. -/
theorem midnight_after_stop : ∃ (start stop : DateText) (a b : TimeText),
    start.text = "2024-05-01" ∧ stop.text = "2024-05-31" ∧
    a.text = "00:00:00" ∧ b.text = "08:00:00" ∧
    timestampLogic 28800 1717171200
      ⟨.str start.text, .str stop.text, .arr [.str a.text, .str b.text]⟩ = .ok true ∧
    ¬ Within 28800 1717171200 start.date stop.date a b := by
  refine ⟨⟨.ofChars ['2', '0', '2', '4'] ⟨rfl, rfl⟩, .ofChars ['0', '5'] ⟨rfl, rfl⟩,
      .ofChars ['0', '1'] ⟨rfl, rfl⟩,
      ⟨2024, 5, 1, by decide, by decide, by decide, by decide⟩, rfl, rfl, rfl⟩,
    ⟨.ofChars ['2', '0', '2', '4'] ⟨rfl, rfl⟩, .ofChars ['0', '5'] ⟨rfl, rfl⟩,
      .ofChars ['3', '1'] ⟨rfl, rfl⟩,
      ⟨2024, 5, 31, by decide, by decide, by decide, by decide⟩, rfl, rfl, rfl⟩,
    ⟨⟨.ofChars ['0', '0'] ⟨rfl, rfl⟩, by decide⟩, ⟨.ofChars ['0', '0'] ⟨rfl, rfl⟩, by decide⟩,
      ⟨.ofChars ['0', '0'] ⟨rfl, rfl⟩, by decide⟩⟩,
    ⟨⟨.ofChars ['0', '8'] ⟨rfl, rfl⟩, by decide⟩, ⟨.ofChars ['0', '0'] ⟨rfl, rfl⟩, by decide⟩,
      ⟨.ofChars ['0', '0'] ⟨rfl, rfl⟩, by decide⟩⟩,
    by decide, by decide, by decide, by decide, by decide +kernel, ?_⟩
  have hafter : ¬ (osDate 28800 1717171200).le
      ⟨2024, 5, 31, by decide, by decide, by decide, by decide⟩ := by decide +kernel
  exact fun h => hafter h.1.2

end TimestampRule
end OpenrestyGateway
