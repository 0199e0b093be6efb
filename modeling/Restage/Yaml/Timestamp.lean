import Restage.Text.Basic

/-!
Dates and times as YAML writes them: a date, or a date with a time of day and perhaps an offset
from universal time. `parse?` reads the form; `check` asks whether such a moment exists.
-/

set_option autoImplicit false

namespace Restage.Yaml

structure TimeOfDay where
  hour : Nat
  minute : Nat
  second : Nat
  /-- the offset from universal time in minutes, when one is written -/
  offset : Option Int
deriving DecidableEq, Repr

structure Timestamp where
  year : Nat
  month : Nat
  day : Nat
  time : Option TimeOfDay
deriving DecidableEq, Repr

namespace Timestamp

/-- Why no such moment exists. -/
inductive Fault where
  | offset (minutes : Int)
  | year (n : Nat)
  | month | day | hour | minute | second
deriving DecidableEq, Repr

/-- A span of time in days and seconds, of which only the days may be negative. -/
def durationText (minutes : Int) : String :=
  let days := Int.fdiv minutes 1440
  let seconds := Int.fmod minutes 1440 * 60
  "datetime.timedelta(" ++
    (if days = 0 ∧ seconds = 0 then "0"
    else if seconds = 0 then "days=" ++ toString days
    else if days = 0 then "seconds=" ++ toString seconds
    else "days=" ++ toString days ++ ", seconds=" ++ toString seconds) ++ ")"

def Fault.message : Fault → String
  | offset n =>
    "offset must be a timedelta strictly between -timedelta(hours=24) and timedelta(hours=24), " ++
      "not " ++ durationText n ++ "."
  | year n => "year " ++ toString n ++ " is out of range"
  | month => "month must be in 1..12"
  | day => "day is out of range for month"
  | hour => "hour must be in 0..23"
  | minute => "minute must be in 0..59"
  | second => "second must be in 0..59"

/-- The number that at least and at most so many digits write, as many as there are. -/
def number? (least most : Nat) (t : Text) : Option (Nat × Text) :=
  let n := min most (t.takeWhile Text.isDigit).length
  if least ≤ n then
    some ((t.take n).foldl (fun v c => v * 10 + (c.toNat - 48)) 0, t.drop n)
  else none

def isBlankOrTab (c : Char) : Bool := c == ' ' || c == '\t'

/-- What follows a character that must be next. -/
def mark? (c : Char) (t : Text) : Option Text := Text.after? [c] t

/-- The offset at the end of a text; the text may also end without one. -/
def zone? (t : Text) : Option (Option Int) :=
  match t, t.dropWhile isBlankOrTab with
  | [], _ => some none
  | _, ['Z'] => some none
  | _, '+' :: r => (signed? r).map some
  | _, '-' :: r => (signed? r).map fun n => some (-n)
  | _, _ => none
where
  signed? (r : Text) : Option Int := do
    let (hours, r) ← number? 1 2 r
    if r.isEmpty then some (hours * 60 : Nat)
    else
      let (minutes, r) ← number? 2 2 (← mark? ':' r)
      if r.isEmpty then some (hours * 60 + minutes : Nat) else none

/-- What separates a date from a time: a letter, or blanks. -/
def separator? (t : Text) : Option Text :=
  match t with
  | 'T' :: r => some r
  | 't' :: r => some r
  | c :: r => if isBlankOrTab c then some (r.dropWhile isBlankOrTab) else none
  | [] => none

def time? (t : Text) : Option TimeOfDay := do
  let (hour, t) ← number? 1 2 (← separator? t)
  let (minute, t) ← number? 2 2 (← mark? ':' t)
  let (second, t) ← number? 2 2 (← mark? ':' t)
  let t := match t with
    | '.' :: r => r.dropWhile Text.isDigit
    | _ => t
  return ⟨hour, minute, second, ← zone? t⟩

def parse? (t : Text) : Option Timestamp := do
  let (year, t) ← number? 4 4 t
  let (month, t) ← number? 1 2 (← mark? '-' t)
  let (day, t) ← number? 1 2 (← mark? '-' t)
  if t.isEmpty then some ⟨year, month, day, none⟩
  else some ⟨year, month, day, some (← time? t)⟩

/-- Whether a plain scalar is a moment. A date alone has all its digits. -/
def isPlain (t : Text) : Bool :=
  match parse? t with
  | none => false
  | some m => m.time.isSome || t.length == 10

def isLeap (year : Nat) : Bool := year % 4 == 0 && (year % 100 != 0 || year % 400 == 0)

def daysIn (year month : Nat) : Nat :=
  if month = 2 then if isLeap year then 29 else 28
  else if [4, 6, 9, 11].contains month then 30 else 31

def checkDate (m : Timestamp) : Except Fault Unit :=
  if m.year = 0 then .error (.year m.year)
  else if m.month = 0 ∨ 12 < m.month then .error .month
  else if m.day = 0 ∨ daysIn m.year m.month < m.day then .error .day
  else .ok ()

def checkOffset (t : TimeOfDay) : Except Fault Unit :=
  match t.offset with
  | some n => if n.natAbs < 1440 then .ok () else .error (.offset n)
  | none => .ok ()

def checkTime (t : TimeOfDay) : Except Fault Unit :=
  if 23 < t.hour then .error .hour
  else if 59 < t.minute then .error .minute
  else if 59 < t.second then .error .second
  else .ok ()

/-- The first fault of a moment: of its offset, its date and its time, in this order. -/
def check (m : Timestamp) : Except Fault Unit :=
  match m.time with
  | none => m.checkDate
  | some t => do
    checkOffset t
    m.checkDate
    checkTime t

end Timestamp
end Restage.Yaml
