import ITrace.Misc.Calendar
import ITrace.TimeExternLib.DateTimeTag

/-!
# Which instant a tag names

The date and the time of day of a tag are of two readings of the clock, so the tag names an instant
between these only if the clock shows that date with that time of day there. A clock that keeps
its offset does so exactly if the second reading is not at an earlier time of day than the first.
Tags that name instants are ordered as these are.
-/

namespace ITrace.TimeExternLib

open ITrace

/-! ### The texts -/

/-- `"%04d%02d%02d"`. -/
def fields (a b c : Int) : List UInt8 := decimal 4 a ++ (decimal 2 b ++ decimal 2 c)

/-- A number of two digits. -/
abbrev TwoDigits (n : Int) : Prop := 0 ≤ n ∧ n < 10 ^ 2

section
variable {a b c a' b' c' : Int}

theorem fields_injective (hb : TwoDigits b) (hc : TwoDigits c) (hb' : TwoDigits b')
    (hc' : TwoDigits c') (h : fields a b c = fields a' b' c') : a = a' ∧ b = b' ∧ c = c' := by
  have hlen {n : Int} (hn : TwoDigits n) : (decimal 2 n).length = 2 :=
    (decimal_of_fits (by decide) hn.1 hn.2).1
  have hpair : (decimal 2 b ++ decimal 2 c).length = (decimal 2 b' ++ decimal 2 c').length := by
    rw [List.length_append, List.length_append, hlen hb, hlen hc, hlen hb', hlen hc']
  obtain ⟨hfirst, hrest⟩ := List.append_inj' h hpair
  obtain ⟨hsecond, hthird⟩ := List.append_inj' hrest ((hlen hc).trans (hlen hc').symm)
  exact ⟨decimal_injective hfirst, decimal_injective hsecond, decimal_injective hthird⟩

theorem length_fields (ha : 0 ≤ a ∧ a < 10 ^ 4) (hb : TwoDigits b) (hc : TwoDigits c) :
    (fields a b c).length = 8 := by
  rw [fields, List.length_append, List.length_append, (decimal_of_fits (by decide) ha.1 ha.2).1,
    (decimal_of_fits (by decide) hb.1 hb.2).1, (decimal_of_fits (by decide) hc.1 hc.2).1]

/-- Texts that begin with three numbers are ordered by these first. -/
theorem strLE_fields_append (ha : 0 ≤ a ∧ a < 10 ^ 4) (hb : TwoDigits b) (hc : TwoDigits c)
    (ha' : 0 ≤ a' ∧ a' < 10 ^ 4) (hb' : TwoDigits b') (hc' : TwoDigits c') {u v : List UInt8}
    (h : a < a' ∨ a = a' ∧ (b < b' ∨ b = b' ∧ (c < c' ∨ c = c' ∧ StrLE u v))) :
    StrLE (fields a b c ++ u) (fields a' b' c' ++ v) := by
  rw [fields, fields, List.append_assoc, List.append_assoc, List.append_assoc, List.append_assoc]
  apply strLE_decimal_append (by decide) ha ha'
  refine h.imp_right (And.imp_right fun h => ?_)
  apply strLE_decimal_append (by decide) hb hb'
  refine h.imp_right (And.imp_right fun h => ?_)
  exact strLE_decimal_append (by decide) hc hc' h

theorem zero_notMem_fields (a b c : Int) : 0 ∉ fields a b c := by
  rw [fields, List.mem_append, List.mem_append, not_or, not_or]
  exact ⟨zero_notMem_decimal 4 a, zero_notMem_decimal 2 b, zero_notMem_decimal 2 c⟩

end

def dateText (tm : Tm) : List UInt8 := fields (tm.year + 1900) (tm.mon + 1) tm.mday

def timeText (tm : Tm) : List UInt8 := fields tm.hour tm.min tm.sec

/-- The date of one local time with the time of day of another. -/
def tagText (date time : Tm) : List UInt8 := dateText date ++ '_'.toUInt8 :: timeText time

def SameDate (a b : Tm) : Prop := a.year = b.year ∧ a.mon = b.mon ∧ a.mday = b.mday

def SameTime (a b : Tm) : Prop := a.hour = b.hour ∧ a.min = b.min ∧ a.sec = b.sec

/-- A local time, ordered by the date, and then by the time of day. -/
def Tm.calendar (tm : Tm) : Int ×ₗ Int ×ₗ Int ×ₗ Int ×ₗ Int ×ₗ Int :=
  toLex (tm.year, toLex (tm.mon, toLex (tm.mday, toLex (tm.hour, toLex (tm.min, tm.sec)))))

section
variable {a b c d : Tm}

/-- All but the year fits its field. -/
theorem Tm.fits (tm : Tm) : TwoDigits (tm.mon + 1) ∧ TwoDigits tm.mday ∧
    (0 ≤ tm.hour ∧ tm.hour < 10 ^ 4) ∧ TwoDigits tm.min ∧ TwoDigits tm.sec := by
  have hmon := tm.mon_range
  have hmday := tm.mday_range
  have hhour := tm.hour_range
  have hmin := tm.min_range
  have hsec := tm.sec_range
  simp only [TwoDigits]
  omega

/-- A tag tells its date and its time of day. -/
theorem tagText_eq_iff : tagText a b = tagText c d ↔ SameDate a c ∧ SameTime b d := by
  obtain ⟨hmon, hmday, -, -, -⟩ := a.fits
  obtain ⟨hmon', hmday', -, -, -⟩ := c.fits
  obtain ⟨-, -, hhour, hmin, hsec⟩ := b.fits
  obtain ⟨-, -, hhour', hmin', hsec'⟩ := d.fits
  constructor
  · intro h
    have hlen : ('_'.toUInt8 :: timeText b).length = ('_'.toUInt8 :: timeText d).length := by
      rw [List.length_cons, List.length_cons, timeText, timeText, length_fields hhour hmin hsec,
        length_fields hhour' hmin' hsec']
    obtain ⟨hdate, htime⟩ := List.append_inj' h hlen
    obtain ⟨hyear, hmonth, hday⟩ := fields_injective hmon hmday hmon' hmday' hdate
    refine ⟨⟨by omega, by omega, hday⟩, ?_⟩
    exact fields_injective hmin hsec hmin' hsec' (List.cons.inj htime).2
  · rintro ⟨⟨hyear, hmonth, hday⟩, hh, hm, hs⟩
    rw [tagText, tagText, dateText, dateText, timeText, timeText, hyear, hmonth, hday, hh, hm, hs]

/-- The year has four digits. -/
abbrev FourDigitYear (tm : Tm) : Prop := 0 ≤ tm.year + 1900 ∧ tm.year + 1900 ≤ 9999

/-- The tags of instants are ordered as their local times are. -/
theorem strLE_tagText (ha : FourDigitYear a) (hb : FourDigitYear b) (h : a.calendar ≤ b.calendar) :
    StrLE (tagText a a) (tagText b b) := by
  obtain ⟨hmon, hmday, hhour, hmin, hsec⟩ := a.fits
  obtain ⟨hmon', hmday', hhour', hmin', hsec'⟩ := b.fits
  simp only [Tm.calendar, Prod.Lex.toLex_le_toLex] at h
  have htime : a.hour < b.hour ∨ a.hour = b.hour ∧ (a.min < b.min ∨ a.min = b.min ∧
      (a.sec < b.sec ∨ a.sec = b.sec)) → StrLE (timeText a) (timeText b) := by
    intro h
    rw [← List.append_nil (timeText a), ← List.append_nil (timeText b)]
    apply strLE_fields_append hhour hmin hsec hhour' hmin' hsec'
    exact h.imp_right (And.imp_right fun h => h.imp_right (And.imp_right fun h =>
      h.imp_right fun h => ⟨h, .inl rfl⟩))
  have hsep (h : StrLE (timeText a) (timeText b)) :
      StrLE (['_'.toUInt8] ++ timeText a) (['_'.toUInt8] ++ timeText b) :=
    strLE_append rfl (.inr ⟨rfl, h⟩)
  apply strLE_fields_append ⟨ha.1, by omega⟩ hmon hmday ⟨hb.1, by omega⟩ hmon' hmday'
  rcases h with hyear | ⟨hyear, hmonth | ⟨hmonth, hday | ⟨hday, h⟩⟩⟩
  · exact .inl (by omega)
  · exact .inr ⟨by omega, .inl (by omega)⟩
  · exact .inr ⟨by omega, .inr ⟨by omega, .inl hday⟩⟩
  · exact .inr ⟨by omega, .inr ⟨by omega, .inr ⟨hday, hsep (htime (by omega))⟩⟩⟩

end

/-! ### The tag of a call -/

section
variable {localtime : Int → Tm}

theorem getDateStr_eq (localtime : Int → Tm) (t : Int) :
    getDateStr localtime 0 t = sprintf (dateText (localtime t) ++ [0]) := by
  rw [dateText, fields, ← List.append_assoc]
  rfl

theorem getTimeStr_eq (localtime : Int → Tm) (t : Int) :
    getTimeStr localtime 0 t = sprintf (timeText (localtime t) ++ [0]) := by
  rw [timeText, fields, ← List.append_assoc]
  rfl

theorem zero_notMem_tagText (date time : Tm) : 0 ∉ tagText date time := by
  rw [tagText, List.mem_append, List.mem_cons, not_or, not_or]
  exact ⟨zero_notMem_fields _ _ _, by decide, zero_notMem_fields _ _ _⟩

/-- A call of `get_date_time_tag`. The clock does not go back between its two readings. -/
structure Call where
  order : ArgOrder
  first : Int
  second : Int
  le : first ≤ second

/-- The tag that the call returns. -/
def Call.tag (localtime : Int → Tm) (c : Call) : Option (List UInt8) := do
  stringAt (← getDateTimeTag localtime c.order c.first c.second) 0

theorem Call.tag_eq (localtime : Int → Tm) (c : Call) :
    c.tag localtime = some (tagText (localtime (c.order.readings c.first c.second).1)
      (localtime (c.order.readings c.first c.second).2)) := by
  have htext := stringAt_sprintf (zero_notMem_tagText
    (localtime (c.order.readings c.first c.second).1)
    (localtime (c.order.readings c.first c.second).2))
  simp only [Call.tag, getDateTimeTag, getDateStr_eq, getTimeStr_eq, Option.bind_eq_bind,
    Option.bind_some, stringAt_sprintf (zero_notMem_fields _ _ _), dateText, timeText]
  simpa [tagText, dateText, timeText] using htext

end

/-! ### Instants between the readings -/

/-- The tag of the call is the formatting of one instant between its readings. -/
def Call.NamesInstant (localtime : Int → Tm) (c : Call) : Prop :=
  ∃ t, c.first ≤ t ∧ t ≤ c.second ∧ c.tag localtime = some (tagText (localtime t) (localtime t))

/-- Both readings are of one date, or of one time of day, or the clock shows the date of the one
reading with the time of day of the other somewhere between them. -/
def Call.Shown (localtime : Int → Tm) (c : Call) : Prop :=
  SameDate (localtime c.first) (localtime c.second) ∨
    SameTime (localtime c.first) (localtime c.second) ∨
    ∃ t, c.first < t ∧ t < c.second ∧
      SameDate (localtime t) (localtime (c.order.readings c.first c.second).1) ∧
      SameTime (localtime t) (localtime (c.order.readings c.first c.second).2)

section
variable {localtime : Int → Tm} {c c' : Call}

theorem SameDate.refl (a : Tm) : SameDate a a := ⟨rfl, rfl, rfl⟩

theorem SameTime.refl (a : Tm) : SameTime a a := ⟨rfl, rfl, rfl⟩

theorem SameDate.symm {a b : Tm} (h : SameDate a b) : SameDate b a :=
  ⟨h.1.symm, h.2.1.symm, h.2.2.symm⟩

theorem SameTime.symm {a b : Tm} (h : SameTime a b) : SameTime b a :=
  ⟨h.1.symm, h.2.1.symm, h.2.2.symm⟩

theorem sameDate_comm {a b : Tm} : SameDate a b ↔ SameDate b a := ⟨.symm, .symm⟩

theorem sameTime_comm {a b : Tm} : SameTime a b ↔ SameTime b a := ⟨.symm, .symm⟩

/-- The clock shows the date of the tag with its time of day. -/
theorem namesInstant_iff : c.NamesInstant localtime ↔ ∃ t, c.first ≤ t ∧ t ≤ c.second ∧
    SameDate (localtime t) (localtime (c.order.readings c.first c.second).1) ∧
    SameTime (localtime t) (localtime (c.order.readings c.first c.second).2) := by
  apply exists_congr
  intro t
  rw [Call.tag_eq, Option.some_inj, tagText_eq_iff, sameDate_comm, sameTime_comm]

theorem namesInstant_iff_shown : c.NamesInstant localtime ↔ c.Shown localtime := by
  rw [namesInstant_iff]
  obtain ⟨order, first, second, hle⟩ := c
  constructor
  · rintro ⟨t, hfirst, hsecond, hdate, htime⟩
    rcases Int.lt_or_eq_of_le hfirst with hlt | rfl
    · rcases Int.lt_or_eq_of_le hsecond with hlt' | rfl
      · exact .inr (.inr ⟨t, hlt, hlt', hdate, htime⟩)
      · cases order with
        | dateFirst => exact .inl hdate.symm
        | timeFirst => exact .inr (.inl htime.symm)
    · cases order with
      | dateFirst => exact .inr (.inl htime)
      | timeFirst => exact .inl hdate
  · rintro (hdate | htime | ⟨t, hfirst, hsecond, hdate, htime⟩)
    · cases order with
      | dateFirst => exact ⟨second, hle, Int.le_refl _, hdate.symm, .refl _⟩
      | timeFirst => exact ⟨first, Int.le_refl _, hle, hdate, .refl _⟩
    · cases order with
      | dateFirst => exact ⟨first, Int.le_refl _, hle, .refl _, htime⟩
      | timeFirst => exact ⟨second, hle, Int.le_refl _, .refl _, htime.symm⟩
    · exact ⟨t, Int.le_of_lt hfirst, Int.le_of_lt hsecond, hdate, htime⟩

/-- Calls one after another return tags in order, if these name instants. -/
theorem strLE_tags (hc : c.NamesInstant localtime) (hc' : c'.NamesInstant localtime)
    (hlater : c.second ≤ c'.first) {start stop : Int} (hstart : start ≤ c.first)
    (hstop : c'.second ≤ stop) (hcalendar : ∀ t t', start ≤ t → t ≤ t' → t' ≤ stop →
      (localtime t).calendar ≤ (localtime t').calendar)
    (hyear : ∀ t, start ≤ t → t ≤ stop → FourDigitYear (localtime t)) :
    ∃ s s', c.tag localtime = some s ∧ c'.tag localtime = some s' ∧ StrLE s s' := by
  obtain ⟨t, hfirst, hsecond, htag⟩ := hc
  obtain ⟨t', hfirst', hsecond', htag'⟩ := hc'
  have hle := hcalendar t t' (by omega) (by omega) (by omega)
  refine ⟨_, _, htag, htag', strLE_tagText (hyear t ?_ ?_) (hyear t' ?_ ?_) hle⟩ <;> omega

end

/-! ### Clocks that keep their offset -/

/-- The broken-down time of the second `s` after the beginning of 1970. -/
def gmtime (s : Int) : Tm where
  sec := s % 86400 % 60
  min := s % 86400 / 60 % 60
  hour := s % 86400 / 3600
  mday := (civil (s / 86400)).day
  mon := (civil (s / 86400)).month - 1
  year := (civil (s / 86400)).year - 1900
  sec_range := by omega
  min_range := by omega
  hour_range := by omega
  mday_range := (civil (s / 86400)).day_range
  mon_range := by
    have hmonth := (civil (s / 86400)).month_range
    omega

/-- The local time is ahead of the universal time by the same offset from one reading to the
other. -/
def Call.KeepsOffset (localtime : Int → Tm) (c : Call) : Prop :=
  ∃ offset, ∀ t, c.first ≤ t → t ≤ c.second → localtime t = gmtime (t + offset)

def Tm.secondOfDay (tm : Tm) : Int := 3600 * tm.hour + 60 * tm.min + tm.sec

section
variable {localtime : Int → Tm} {c : Call} {s s' : Int}

theorem secondOfDay_gmtime (s : Int) : (gmtime s).secondOfDay = s % 86400 := by
  simp only [Tm.secondOfDay, gmtime]
  omega

theorem sameTime_gmtime : SameTime (gmtime s) (gmtime s') ↔ s % 86400 = s' % 86400 := by
  simp only [SameTime, gmtime]
  omega

theorem sameDate_gmtime : SameDate (gmtime s) (gmtime s') ↔ s / 86400 = s' / 86400 := by
  constructor
  · rintro ⟨hyear, hmonth, hday⟩
    apply civil_injective
    simp only [gmtime] at hyear hmonth hday
    have hyear' : (civil (s / 86400)).year = (civil (s' / 86400)).year := by omega
    have hmonth' : (civil (s / 86400)).month = (civil (s' / 86400)).month := by omega
    simp only [Date.calendar, hyear', hmonth', hday]
  · intro h
    simp only [SameDate, gmtime, h, and_self]

/-- The universal time does not go back. -/
theorem calendar_gmtime_le (h : s ≤ s') : (gmtime s).calendar ≤ (gmtime s').calendar := by
  have hday : s / 86400 ≤ s' / 86400 := Int.ediv_le_ediv (by decide) h
  simp only [Tm.calendar, Prod.Lex.toLex_le_toLex, gmtime]
  rcases Int.lt_or_eq_of_le hday with hlt | heq
  · have hdate := civil_lt hlt
    simp only [Date.calendar, Prod.Lex.toLex_lt_toLex] at hdate
    omega
  · rw [heq]
    omega

/-- The instants that show the date of `x` with the time of day of `y`. -/
theorem shown_iff_of_offset {offset t x y : Int} (ht : localtime t = gmtime (t + offset))
    (hx : localtime x = gmtime (x + offset)) (hy : localtime y = gmtime (y + offset)) :
    SameDate (localtime t) (localtime x) ∧ SameTime (localtime t) (localtime y) ↔
      (t + offset) / 86400 = (x + offset) / 86400 ∧ (t + offset) % 86400 = (y + offset) % 86400 := by
  rw [ht, hx, hy, sameDate_gmtime, sameTime_gmtime]

/-- Between two readings, the day of the one has the time of day of the other exactly if the second
reading is not earlier in the day. -/
theorem exists_dayTime_iff {first second x y : Int} (offset : Int) (hle : first ≤ second)
    (hreadings : x = first ∧ y = second ∨ x = second ∧ y = first) :
    (∃ t, first ≤ t ∧ t ≤ second ∧
        (t + offset) / 86400 = (x + offset) / 86400 ∧ (t + offset) % 86400 = (y + offset) % 86400) ↔
      (first + offset) % 86400 ≤ (second + offset) % 86400 := by
  constructor
  · rintro ⟨t, hlo, hhi, hday, hsec⟩
    omega
  · intro hsec
    refine ⟨(x + offset) / 86400 * 86400 + (y + offset) % 86400 - offset, ?_, ?_, ?_, ?_⟩ <;> omega

/-- For a clock that keeps its offset, the times of day of the readings decide. -/
theorem namesInstant_iff_secondOfDay (h : c.KeepsOffset localtime) :
    c.NamesInstant localtime ↔
      (localtime c.first).secondOfDay ≤ (localtime c.second).secondOfDay := by
  obtain ⟨offset, hoffset⟩ := h
  obtain ⟨order, first, second, hle⟩ := c
  have hfirst : localtime first = gmtime (first + offset) := hoffset first (Int.le_refl _) hle
  have hsecond : localtime second = gmtime (second + offset) := hoffset second hle (Int.le_refl _)
  obtain ⟨x, y, hxy, hreadings, hx, hy⟩ : ∃ x y, order.readings first second = (x, y) ∧
      (x = first ∧ y = second ∨ x = second ∧ y = first) ∧
      localtime x = gmtime (x + offset) ∧ localtime y = gmtime (y + offset) := by
    cases order with
    | dateFirst => exact ⟨first, second, rfl, .inl ⟨rfl, rfl⟩, hfirst, hsecond⟩
    | timeFirst => exact ⟨second, first, rfl, .inr ⟨rfl, rfl⟩, hsecond, hfirst⟩
  rw [namesInstant_iff, hfirst, hsecond, secondOfDay_gmtime, secondOfDay_gmtime, hxy,
    ← exists_dayTime_iff offset hle hreadings]
  apply exists_congr
  intro t
  apply and_congr_right
  intro hlo
  apply and_congr_right
  intro hhi
  exact shown_iff_of_offset (hoffset t hlo hhi) hx hy

end

/-! ### All calls -/

/-- For every clock: the tag of a call is the formatting of one instant between the two readings
exactly if the clock shows the date and the time of day of the readings at one of these instants,
for a clock that keeps its offset exactly if the second reading is not earlier in the day than the
first. If that is so in all calls that are made one after another, and the local time does not go
back, then the tags do not decrease. -/
theorem getDateTimeTag_namesInstant (localtime : Int → Tm) :
    (∀ c : Call, c.NamesInstant localtime ↔ c.Shown localtime) ∧
      (∀ c : Call, c.KeepsOffset localtime →
        (c.NamesInstant localtime ↔
          (localtime c.first).secondOfDay ≤ (localtime c.second).secondOfDay)) ∧
      ∀ calls : List Call, calls.Pairwise (fun c c' => c.second ≤ c'.first) →
        (∀ c ∈ calls, c.Shown localtime) →
        ∀ start stop, (∀ c ∈ calls, start ≤ c.first ∧ c.second ≤ stop) →
          (∀ t t', start ≤ t → t ≤ t' → t' ≤ stop →
            (localtime t).calendar ≤ (localtime t').calendar) →
          (∀ t, start ≤ t → t ≤ stop → FourDigitYear (localtime t)) →
          calls.Pairwise fun c c' =>
            ∃ s s', c.tag localtime = some s ∧ c'.tag localtime = some s' ∧ StrLE s s' := by
  refine ⟨fun c => namesInstant_iff_shown, fun c => namesInstant_iff_secondOfDay, ?_⟩
  intro calls hlater hshown start stop hbounds hcalendar hyear
  apply hlater.imp_of_mem
  intro c c' hc hc' hle
  exact strLE_tags (namesInstant_iff_shown.mpr (hshown c hc)) (namesInstant_iff_shown.mpr (hshown c' hc'))
    hle (hbounds c hc).1 (hbounds c' hc').2 hcalendar hyear

/-- Two calls before and one after the beginning of the year 2000. -/
theorem getDateTimeTag_namesInstant_newYear :
    [Call.mk .dateFirst 946684798 946684799 (by decide),
      Call.mk .timeFirst 946684799 946684799 (by decide),
      Call.mk .timeFirst 946684800 946684801 (by decide)].Pairwise fun c c' =>
        ∃ s s', c.tag gmtime = some s ∧ c'.tag gmtime = some s' ∧ StrLE s s' := by
  refine (getDateTimeTag_namesInstant gmtime).2.2 _ ?_ ?_ 946684798 946684801 ?_
    (fun _ _ _ h _ => calendar_gmtime_le h) ?_
  · decide
  · intro c hc
    simp only [List.mem_cons, List.not_mem_nil, or_false] at hc
    rcases hc with rfl | rfl | rfl <;> exact .inl ⟨by decide, by decide, by decide⟩
  · simp
  · intro t hstart hstop
    have ht : t = 946684798 ∨ t = 946684799 ∨ t = 946684800 ∨ t = 946684801 := by omega
    rcases ht with rfl | rfl | rfl | rfl <;> decide

/-- The date is read in the last second of 1999, and the time of day one second later, or the other
way round: no instant of the call has the tag. The tag of a call just before it is greater. -/
theorem newYear_torn :
    (∀ order, ¬ Call.NamesInstant gmtime ⟨order, 946684799, 946684800, by decide⟩) ∧
      ∃ s s', Call.tag gmtime ⟨.dateFirst, 946684799, 946684799, by decide⟩ = some s ∧
        Call.tag gmtime ⟨.dateFirst, 946684799, 946684800, by decide⟩ = some s' ∧
        ¬ StrLE s s' := by
  constructor
  · intro order
    rw [namesInstant_iff_secondOfDay ⟨0, fun t _ _ => by rw [Int.add_zero]⟩]
    cases order with
    | dateFirst => decide
    | timeFirst => decide
  · exact ⟨_, _, Call.tag_eq _ _, Call.tag_eq _ _, by decide⟩

end ITrace.TimeExternLib
