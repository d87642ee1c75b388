import ITrace.Misc.CString
import ITrace.Misc.Decimal

/-!
# Tags from the clock

`time_extern_lib/time_extern_lib.c`: the date, the time of day, and the tag that is made of both.
The clock is a parameter, `localtime`, which says what the local time is at a reading of
`time(NULL)`. The texts end in the zero byte of a `%c`.
-/

namespace ITrace.TimeExternLib

/-- `struct tm`, as far as it is read, with the ranges of its members. The year, to which 1900 is
added, is taken to be far from the limits of `int`. -/
structure Tm where
  sec : Int
  min : Int
  hour : Int
  mday : Int
  mon : Int
  year : Int
  sec_range : 0 ≤ sec ∧ sec ≤ 60
  min_range : 0 ≤ min ∧ min ≤ 59
  hour_range : 0 ≤ hour ∧ hour ≤ 23
  mday_range : 1 ≤ mday ∧ mday ≤ 31
  mon_range : 0 ≤ mon ∧ mon ≤ 11

/-- `get_date_str`, with `nowtime` as `time(NULL)` returns it. -/
def getDateStr (localtime : Int → Tm) (delime : UInt8) (nowtime : Int) : List UInt8 :=
  let now := localtime nowtime
  if delime ≠ 0 then
    sprintf (decimal 4 (now.year + 1900) ++ [delime] ++ decimal 2 (now.mon + 1) ++ [delime] ++
      decimal 2 now.mday ++ [0])
  else
    sprintf (decimal 4 (now.year + 1900) ++ decimal 2 (now.mon + 1) ++ decimal 2 now.mday ++ [0])

/-- `get_time_str`. The hour has four digits. -/
def getTimeStr (localtime : Int → Tm) (delime : UInt8) (nowtime : Int) : List UInt8 :=
  let now := localtime nowtime
  if delime ≠ 0 then
    sprintf (decimal 4 now.hour ++ [delime] ++ decimal 2 now.min ++ [delime] ++ decimal 2 now.sec ++
      [0])
  else
    sprintf (decimal 4 now.hour ++ decimal 2 now.min ++ decimal 2 now.sec ++ [0])

/-- The order in which the arguments of the `sprintf` of `get_date_time_tag` are evaluated, which C
leaves open. -/
inductive ArgOrder where
  | dateFirst
  | timeFirst

/-- The readings for the date and for the time of day. -/
def ArgOrder.readings (first second : Int) : ArgOrder → Int × Int
  | .dateFirst => (first, second)
  | .timeFirst => (second, first)

/-- `get_date_time_tag`, with the two readings of `time(NULL)` that are made one after the
other. -/
def getDateTimeTag (localtime : Int → Tm) (order : ArgOrder) (first second : Int) :
    Option (List UInt8) := do
  let (dateNow, timeNow) := order.readings first second
  let dateTagTmp ← stringAt (getDateStr localtime 0 dateNow) 0
  let timeTagTmp ← stringAt (getTimeStr localtime 0 timeNow) 0
  some (sprintf (dateTagTmp ++ ['_'.toUInt8] ++ timeTagTmp ++ [0]))

end ITrace.TimeExternLib
