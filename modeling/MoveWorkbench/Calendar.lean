import MoveWorkbench.Fault
import MoveWorkbench.Text.Digit

/-!
Instants of the years one to 9999 in universal time, in microseconds since the beginning
of 1970, and spans of time of at most 999999999 days. Moving an instant out of these
years fails.
-/

namespace MoveWorkbench

def microsPerSecond : Int := 1000000

def microsPerDay : Int := 86400 * microsPerSecond

structure Instant where
  micros : Int
  inRange : -62135596800000000 ≤ micros ∧ micros ≤ 253402300799999999
  deriving DecidableEq

structure Span where
  micros : Int
  inRange : -999999999 * microsPerDay ≤ micros ∧ micros < 1000000000 * microsPerDay
  deriving DecidableEq

namespace Span

def ofMicros (n : Int) : Except Fault Span :=
  if h : -999999999 * microsPerDay ≤ n ∧ n < 1000000000 * microsPerDay then .ok ⟨n, h⟩
  else .error .outOfRange

def ofSeconds (n : Int) : Except Fault Span := ofMicros (n * microsPerSecond)

end Span

namespace Instant

def ofMicros (n : Int) : Except Fault Instant :=
  if h : -62135596800000000 ≤ n ∧ n ≤ 253402300799999999 then .ok ⟨n, h⟩
  else .error .outOfRange

/-- The instant a span earlier. -/
def before (t : Instant) (s : Span) : Except Fault Instant := ofMicros (t.micros - s.micros)

instance : LT Instant := ⟨fun a b => a.micros < b.micros⟩

instance (a b : Instant) : Decidable (a < b) := inferInstanceAs (Decidable (a.micros < b.micros))

/-- Year, month and day of a number of days after the beginning of 1970. Years are taken
to begin in March, so that the leap day is their last one. -/
def civil (days : Int) : Int × Int × Int :=
  let z := days + 719468
  let era := z / 146097
  let dayOfEra := z % 146097
  let yearOfEra := (dayOfEra - dayOfEra / 1460 + dayOfEra / 36524 - dayOfEra / 146096) / 365
  let dayOfYear := dayOfEra - (365 * yearOfEra + yearOfEra / 4 - yearOfEra / 100)
  let marchMonth := (5 * dayOfYear + 2) / 153
  let day := dayOfYear - (153 * marchMonth + 2) / 5 + 1
  let month := if marchMonth < 10 then marchMonth + 3 else marchMonth - 9
  (yearOfEra + era * 400 + (if month ≤ 2 then 1 else 0), month, day)

/-- A number with zeros in front up to the given width. -/
def padded (width : Nat) (n : Int) : String :=
  String.ofList (Text.padZeros width (Nat.toDigits 10 n.toNat))

/-- Date, time and offset, with six digits of a second unless they are all zero. -/
def text (t : Instant) : String :=
  let (year, month, day) := civil (t.micros / microsPerDay)
  let second := t.micros % microsPerDay / microsPerSecond
  let micro := t.micros % microsPerSecond
  padded 4 year ++ "-" ++ padded 2 month ++ "-" ++ padded 2 day ++ "T"
    ++ padded 2 (second / 3600) ++ ":" ++ padded 2 (second / 60 % 60) ++ ":"
    ++ padded 2 (second % 60) ++ (if micro = 0 then "" else "." ++ padded 6 micro) ++ "+00:00"

theorem lt_iff {a b : Instant} : a < b ↔ a.micros < b.micros := Iff.rfl

theorem ofMicros_micros (t : Instant) : ofMicros t.micros = .ok t := by
  simp [ofMicros, t.inRange]

theorem ofMicros_eq_ok {n : Int} {t : Instant} : ofMicros n = .ok t ↔ t.micros = n := by
  constructor
  · intro h
    unfold ofMicros at h
    split at h
    · cases h; rfl
    · cases h
  · rintro rfl
    exact ofMicros_micros t

end Instant

end MoveWorkbench
