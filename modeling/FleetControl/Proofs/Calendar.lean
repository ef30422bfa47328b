import FleetControl.Time.Calendar
import Mathlib.Algebra.GroupWithZero.Nat

/-!
# Days and dates

The date of a day is one that the calendar has, and counting up to it gives the
day back. A year is found from a first guess that is at most one off; within it
the months are taken off one after the other.
-/
namespace FleetControl.Date

/-- The first guess at a year is at most one off. -/
theorem daysBeforeYear_pred_le (n : Int) : daysBeforeYear (n * 400 / 146097 - 1) ≤ n := by
  simp only [daysBeforeYear]
  omega

theorem lt_daysBeforeYear_add_two (n : Int) : n < daysBeforeYear (n * 400 / 146097 + 2) := by
  simp only [daysBeforeYear]
  omega

/-- A day lies in the year that is found for it. -/
theorem daysBeforeYear_yearOf_le (n : Int) : daysBeforeYear (yearOf n) ≤ n := by
  dsimp only [yearOf]
  split
  · exact daysBeforeYear_pred_le n
  · split <;> omega

theorem lt_daysBeforeYear_yearOf (n : Int) : n < daysBeforeYear (yearOf n + 1) := by
  dsimp only [yearOf]
  split
  · rename_i h
    rwa [Int.sub_add_cancel]
  · split
    · rw [Int.add_assoc]
      exact lt_daysBeforeYear_add_two n
    · rename_i h
      exact Int.not_le.mp h

/-- A year is as long as its months together. -/
theorem daysBeforeYear_succ (y : Int) :
    daysBeforeYear (y + 1) = daysBeforeYear y + (monthLengths (isLeap y)).sum := by
  cases h : isLeap y <;> simp [isLeap] at h <;> simp [monthLengths, daysBeforeYear] <;> omega

/-- The month found for a day is one of those listed, and the days of the months
before it and the day of the month make up the day. -/
theorem monthAndDay_spec {lens : List Nat} {n : Nat} (month : Nat) (h : n < lens.sum) :
    ∃ i len, lens[i]? = some len ∧ (monthAndDay month lens n).1 = month + i ∧
      1 ≤ (monthAndDay month lens n).2 ∧ (monthAndDay month lens n).2 ≤ len ∧
      (lens.take i).sum + (monthAndDay month lens n).2 = n + 1 := by
  induction lens generalizing month n with
  | nil => exact absurd h (Nat.not_lt_zero n)
  | cons len lens ih =>
      simp only [monthAndDay]
      split
      · rename_i hn
        exact ⟨0, len, rfl, rfl, by simp, hn, by simp⟩
      · rename_i hn
        have hrest : n - len < lens.sum := by
          rw [List.sum_cons] at h
          omega
        obtain ⟨i, l, hi, hmonth, hfirst, hlast, hday⟩ := ih (month + 1) hrest
        refine ⟨i + 1, l, hi, by omega, hfirst, hlast, ?_⟩
        rw [List.take_succ_cons, List.sum_cons]
        omega

theorem daysBeforeMonth_eq (leap : Bool) (month : Nat) :
    daysBeforeMonth leap month = ((monthLengths leap).take (month - 1)).sum :=
  List.sum_eq_foldl.symm

/-- The month of the date of a day is one of its year, and with the months before it and the day
of the month the year has come to the day. -/
theorem ofDays_spec (days : Int) :
    ∃ i len, (monthLengths (isLeap (ofDays days).year))[i]? = some len ∧
      (ofDays days).month = i + 1 ∧ 1 ≤ (ofDays days).day ∧ (ofDays days).day ≤ len ∧
      ((((monthLengths (isLeap (ofDays days).year)).take i).sum + (ofDays days).day : Nat) : Int)
        = days + epochDays - daysBeforeYear (ofDays days).year + 1 := by
  have hlow := daysBeforeYear_yearOf_le (days + epochDays)
  have hhigh := lt_daysBeforeYear_yearOf (days + epochDays)
  rw [daysBeforeYear_succ] at hhigh
  have hlt : (days + epochDays - daysBeforeYear (yearOf (days + epochDays))).toNat <
      (monthLengths (isLeap (yearOf (days + epochDays)))).sum := by omega
  obtain ⟨i, len, hi, hmonth, hfirst, hlast, hday⟩ := monthAndDay_spec 1 hlt
  refine ⟨i, len, hi, ?_, hfirst, hlast, ?_⟩
  · exact hmonth.trans (Nat.add_comm 1 i)
  · refine (congrArg Nat.cast hday).trans ?_
    simp only [ofDays]
    omega

/-- The date of a day is one that the calendar has. -/
theorem isValid_ofDays (days : Int) : (ofDays days).isValid = true := by
  obtain ⟨i, len, hi, hmonth, hfirst, hlast, -⟩ := ofDays_spec days
  have hlt : i < 12 := (List.getElem?_eq_some_iff.mp hi).1
  simp [isValid, monthLength, hmonth, hi, hfirst, hlast]
  omega

theorem month_ofDays_le (days : Int) : (ofDays days).month ≤ 12 := by
  obtain ⟨i, len, hi, hmonth, -⟩ := ofDays_spec days
  have hlt : i < 12 := (List.getElem?_eq_some_iff.mp hi).1
  omega

theorem day_ofDays_le (days : Int) : (ofDays days).day ≤ 31 := by
  obtain ⟨i, len, hi, -, -, hlast, -⟩ := ofDays_spec days
  have hlens : ∀ leap, ∀ l ∈ monthLengths leap, l ≤ 31 := by decide
  exact Nat.le_trans hlast (hlens _ _ (List.mem_of_getElem? hi))

/-- Counting the days up to the date of a day gives the day back. -/
theorem toDays_ofDays (days : Int) : (ofDays days).toDays = days := by
  obtain ⟨i, len, -, hmonth, -, -, hday⟩ := ofDays_spec days
  simp only [toDays, daysBeforeMonth_eq, hmonth, Nat.add_sub_cancel]
  omega

end FleetControl.Date
