import NeighborSearch.Double
import NeighborSearch.Size

/-!
# Latencies in summary

The latencies of a run are summed up by the least, the median, the mean and the greatest
of them. The median is the one in the middle of the ascending order, of two in the middle
the greater one. The mean is the quotient of the sum and the number of latencies as
doubles, rounded to a double; the sum is taken in 64 bits.
-/

namespace NeighborSearch

/-- Latencies in summary, in microseconds. -/
structure Summary where
  /-- The least latency. -/
  min : Size
  /-- The latency in the middle. -/
  median : Size
  /-- The mean latency. -/
  mean : Double
  /-- The greatest latency. -/
  max : Size
deriving DecidableEq

namespace Summary

/-- Latencies in ascending order. -/
def sort (latencies : List Size) : List Size :=
  latencies.mergeSort fun a b => decide (a ≤ b)

/-- The mean of `count` latencies with the given sum. -/
def meanOf (sum count : Nat) : Double :=
  .ofQuotient (Rounding.toDigits 53 sum) (Rounding.toDigits 53 count)

/-- The summary of some latencies; there is none of no latencies. -/
def ofLatencies? (latencies : List Size) : Option Summary := do
  let sorted := sort latencies
  return {
    min := ← sorted.head?
    median := ← sorted[sorted.length / 2]?
    mean := meanOf (sorted.foldl (· + ·) 0).toNat sorted.length
    max := ← sorted.getLast? }

/-- There is a summary of every list of latencies that is not empty. -/
theorem ofLatencies?_eq_none_iff {latencies : List Size} :
    ofLatencies? latencies = none ↔ latencies = [] := by
  have hlen : (sort latencies).length = latencies.length := List.length_mergeSort _
  constructor
  · intro h
    match hs : sort latencies with
    | [] =>
      rw [hs] at hlen
      exact List.eq_nil_of_length_eq_zero hlen.symm
    | a :: rest =>
      have hmid : (a :: rest).length / 2 < (a :: rest).length := by
        simp only [List.length_cons]
        omega
      have hlast : (a :: rest).getLast? = some ((a :: rest).getLast (by simp)) :=
        List.getLast?_eq_some_getLast _
      simp only [ofLatencies?, hs, List.head?_cons, hlast, List.getElem?_eq_getElem hmid] at h
      exact absurd h (by simp)
  · rintro rfl
    simp [ofLatencies?, sort]

end Summary

end NeighborSearch
