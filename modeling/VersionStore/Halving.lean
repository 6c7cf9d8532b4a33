namespace VersionStore

/-!
# Search by halving

Looks for the end of the run of numbers that pass a test, half of what is left at a time.
The main statement, `lt_boundary_iff`, says that the search finds it when every number
below one that passes does so too.
-/

/-- The end of the run of numbers that pass a test, among `count` numbers from `start` on. -/
def boundary (test : Nat → Bool) (start count : Nat) : Nat :=
  if _few : count ≤ 1 then
    if count = 1 && test start then start + 1 else start
  else if test (start + count / 2) then
    boundary test (start + count / 2) (count - count / 2)
  else boundary test start (count - count / 2)
termination_by count
decreasing_by all_goals omega

/-- The end lies among the numbers or right behind them. -/
theorem boundary_bounds (test : Nat → Bool) (start count : Nat) :
    start ≤ boundary test start count ∧ boundary test start count ≤ start + count := by
  fun_induction boundary test start count with
  | case1 start count few both =>
      simp only [Bool.and_eq_true, decide_eq_true_eq] at both
      omega
  | case2 start count few _ => omega
  | case3 start count many _ ih => omega
  | case4 start count many _ ih => omega

/-- When a number that passes has only such numbers below it, the numbers in front of the
end are those that pass. -/
theorem lt_boundary_iff
    {test : Nat → Bool}
    (closed : ∀ i j, i ≤ j → test j = true → test i = true)
    {start count i : Nat}
    (above : start ≤ i)
    (below : i < start + count) :
    i < boundary test start count ↔ test i = true := by
  fun_induction boundary test start count with
  | case1 start count few both =>
      simp only [Bool.and_eq_true, decide_eq_true_eq] at both
      have here : i = start := by omega
      subst here
      exact ⟨fun _ => both.2, fun _ => by omega⟩
  | case2 start count few neither =>
      have here : i = start := by omega
      subst here
      simp only [Bool.and_eq_true, decide_eq_true_eq, not_and] at neither
      exact ⟨fun less => by omega, fun passed => absurd passed (neither (by omega))⟩
  | case3 start count many passed ih =>
      by_cases behind : start + count / 2 ≤ i
      · exact ih behind (by omega)
      · have bounds := boundary_bounds test (start + count / 2) (count - count / 2)
        exact ⟨fun _ => closed i _ (by omega) passed, fun _ => by omega⟩
  | case4 start count many failed ih =>
      by_cases before : i < start + (count - count / 2)
      · exact ih above before
      · have bounds := boundary_bounds test start (count - count / 2)
        exact ⟨fun _ => by omega, fun passed => absurd (closed _ i (by omega) passed) failed⟩

end VersionStore
