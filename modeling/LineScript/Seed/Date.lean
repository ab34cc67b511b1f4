/-! Dates and times of day as seed files write them. -/
namespace LineScript

structure Date where
  year : Nat
  month : Nat
  day : Nat
  deriving DecidableEq, Repr

structure Time where
  hour : Nat
  minute : Nat
  second : Nat
  microsecond : Nat
  deriving DecidableEq, Repr

structure Timestamp where
  date : Date
  time : Time
  offset : Option Int
  deriving DecidableEq, Repr

inductive DateFault where
  | offset (minutes : Int)
  | year (number : Nat)
  | month
  | day
  | hour
  | minute
  | second
  deriving DecidableEq, Repr

namespace DateFault

def spanText (seconds : Int) : String :=
  let days := seconds.fdiv 86400
  let rest := seconds.fmod 86400
  let parts := (if days = 0 then [] else ["days=" ++ toString days]) ++
    (if rest = 0 then [] else ["seconds=" ++ toString rest])
  "datetime.timedelta(" ++ (if parts.isEmpty then "0" else ", ".intercalate parts) ++ ")"

def message : DateFault → String
  | .offset minutes =>
    "offset must be a timedelta strictly between -timedelta(hours=24) and timedelta(hours=24), " ++
      "not " ++ spanText (minutes * 60) ++ "."
  | .year number => "year " ++ toString number ++ " is out of range"
  | .month => "month must be in 1..12"
  | .day => "day is out of range for month"
  | .hour => "hour must be in 0..23"
  | .minute => "minute must be in 0..59"
  | .second => "second must be in 0..59"

end DateFault

def padded (width n : Nat) : String :=
  let digits := Nat.toDigits 10 n
  String.ofList (List.replicate (width - digits.length) '0' ++ digits)

namespace Date

def isLeap (year : Nat) : Bool := year % 4 = 0 && (year % 100 ≠ 0 || year % 400 = 0)

def daysIn (year month : Nat) : Nat :=
  if month = 2 then (if isLeap year then 29 else 28)
  else if month = 4 || month = 6 || month = 9 || month = 11 then 30
  else 31

def check (d : Date) : Except DateFault Unit :=
  if d.year = 0 then .error (.year d.year)
  else if d.month = 0 || 12 < d.month then .error .month
  else if d.day = 0 || daysIn d.year d.month < d.day then .error .day
  else .ok ()

def number (d : Date) : Nat :=
  let before := d.year - 1
  let months := (List.range (d.month - 1)).foldl (fun days i => days + daysIn d.year (i + 1)) 0
  before * 365 + before / 4 - before / 100 + before / 400 + months + d.day

def text (d : Date) : String :=
  padded 4 d.year ++ "-" ++ padded 2 d.month ++ "-" ++ padded 2 d.day

end Date

namespace Time

def check (t : Time) : Except DateFault Unit :=
  if 23 < t.hour then .error .hour
  else if 59 < t.minute then .error .minute
  else if 59 < t.second then .error .second
  else .ok ()

def text (t : Time) : String :=
  padded 2 t.hour ++ ":" ++ padded 2 t.minute ++ ":" ++ padded 2 t.second ++
    (if t.microsecond = 0 then "" else "." ++ padded 6 t.microsecond)

end Time

namespace Timestamp

def offsetText (minutes : Int) : String :=
  let size := minutes.natAbs
  (if minutes < 0 then "-" else "+") ++ padded 2 (size / 60) ++ ":" ++ padded 2 (size % 60)

def check (t : Timestamp) : Except DateFault Unit := do
  match t.offset with
  | some minutes => if 1440 ≤ minutes.natAbs then .error (.offset minutes)
  | none => pure ()
  t.date.check
  t.time.check

def textWith (separator : String) (t : Timestamp) : String :=
  t.date.text ++ separator ++ t.time.text ++ (t.offset.map offsetText).getD ""

def text (t : Timestamp) : String := t.textWith "T"

def instant (t : Timestamp) : Int :=
  let seconds : Int := t.date.number * 86400 + t.time.hour * 3600 + t.time.minute * 60 +
    t.time.second
  (seconds - t.offset.getD 0 * 60) * 1000000 + t.time.microsecond

def same (t u : Timestamp) : Bool := t.offset.isSome == u.offset.isSome && t.instant == u.instant

end Timestamp
end LineScript
