import Blotter.Scalar

/-!
# Means, deviations and moments

Statistics of a list of returns. Each is zero where the list is too short for it, or where a
deviation to divide by is all but zero; a ratio that is not finite is reported as zero.
-/

set_option autoImplicit false

namespace Blotter

open Scalar Analytic

variable {α : Type}

def tradingDaysPerYear : Nat := 252

section

variable [Scalar α]

def defaultRiskFreeRate : α := 2 / 100

/-- Deviations below this count as none, one part in 10^12. -/
def leastDeviation : α := 1 / 1000000000000

def mean (values : List α) : α := if values.isEmpty then 0 else sum values / ofCount values.length

def excessReturn (returns : List α) (rate : α) : α :=
  mean returns - rate / ofCount tradingDaysPerYear

end

variable [Analytic α]

def sampleDeviation (values : List α) : α :=
  if values.length < 2 then 0
  else
    let avg := mean values
    sqrt (sum (values.map fun v => (v - avg) * (v - avg)) / ofCount (values.length - 1))

/-- Root of the number of trading days, which turns a daily deviation into a yearly one. -/
def annualizer : α := sqrt (ofCount tradingDaysPerYear)

def sharpeRatio (returns : List α) (rate : α) : α :=
  let deviation := sampleDeviation returns
  if returns.length < 2 then 0
  else if deviation < leastDeviation then 0
  else zeroUnlessFinite (annualizer * excessReturn returns rate / deviation)

def negatives (returns : List α) : List α := returns.filter (· < 0)

def sortinoRatio (returns : List α) (rate : α) : α :=
  let deviation := sampleDeviation (negatives returns)
  if (negatives returns).isEmpty then 0
  else if deviation < leastDeviation then 0
  else zeroUnlessFinite (annualizer * excessReturn returns rate / deviation)

def centralMoment (values : List α) (order : Nat) : α :=
  let avg := mean values
  sum (values.map fun v => pow (v - avg) (ofCount order)) / ofCount values.length

/-- The adjusted Fisher-Pearson coefficient. -/
def skewness (values : List α) : α :=
  let n : α := ofCount values.length
  let m2 := centralMoment values 2
  if values.length < 3 then 0
  else if m2 < leastDeviation then 0
  else
    let g1 := centralMoment values 3 / pow m2 (3 / 2)
    zeroUnlessFinite (g1 * sqrt (n * (n - 1)) / (n - 2))

def excessKurtosis (values : List α) : α :=
  let n : α := ofCount values.length
  let m2 := centralMoment values 2
  if values.length < 4 then 0
  else if m2 < leastDeviation then 0
  else
    let g2 := centralMoment values 4 / (m2 * m2) - 3
    zeroUnlessFinite (((n + 1) * g2 + 6) * (n - 1) / ((n - 2) * (n - 3)))

end Blotter
