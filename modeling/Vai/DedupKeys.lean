import Vai.Watcher
import Vai.Separated
/-!
# DedupKeys — which discoveries have one key

The first letter of a key tells its kind.  The key of a failed test, and that of a quality issue, has two fields with `::`
between them, and fields are any texts: two of a kind have one key without agreeing exactly where the `::` stands further
on in one of them (`dedupKey_identifies_iff`).
-/
namespace Vai
namespace DiscoveryEventKind

open Separated (MovesOn)

def initial : DiscoveryEventKind → Char
  | testFailureDiscovered _ _ _ _ => 't'
  | securityVulnerabilityDiscovered _ _ _ => 's'
  | codeQualityIssueDiscovered _ _ _ => 'q'
  | performanceRegressionDiscovered _ _ _ _ => 'p'
  | dependencyUpdateAvailable _ _ _ => 'd'

/-- The two are of one kind and agree on the fields of the key. -/
def SameProblem : DiscoveryEventKind → DiscoveryEventKind → Prop
  | testFailureDiscovered suite testName _ _, testFailureDiscovered suite' testName' _ _ =>
    suite = suite' ∧ testName = testName'
  | securityVulnerabilityDiscovered source _ _, securityVulnerabilityDiscovered source' _ _ => source = source'
  | codeQualityIssueDiscovered rule entity _, codeQualityIssueDiscovered rule' entity' _ =>
    rule = rule' ∧ entity = entity'
  | performanceRegressionDiscovered metric _ _ _, performanceRegressionDiscovered metric' _ _ _ => metric = metric'
  | dependencyUpdateAvailable package _ _, dependencyUpdateAvailable package' _ _ => package = package'
  | _, _ => False

/-- Two failed tests, or two quality issues, one of which has its `::` further on. -/
def Straddles : DiscoveryEventKind → DiscoveryEventKind → Prop
  | testFailureDiscovered suite testName _ _, testFailureDiscovered suite' testName' _ _ =>
    MovesOn ':' suite testName suite' testName' ∨ MovesOn ':' suite' testName' suite testName
  | codeQualityIssueDiscovered rule entity _, codeQualityIssueDiscovered rule' entity' _ =>
    MovesOn ':' rule entity rule' entity' ∨ MovesOn ':' rule' entity' rule entity
  | _, _ => False

theorem head?_dedupKey (d : DiscoveryEventKind) : d.dedupKey.head? = some d.initial := by
  cases d <;> rfl

theorem initial_eq_of_dedupKey {d e : DiscoveryEventKind} (h : d.dedupKey = e.dedupKey) : d.initial = e.initial := by
  have hhead := congrArg List.head? h
  rw [head?_dedupKey, head?_dedupKey] at hhead
  exact Option.some.inj hhead

/-- Two fields with `::` between them, after the name of the kind. -/
theorem twoFields_iff {pre x y x' y' : Text} : pre ++ x ++ "::".toList ++ y = pre ++ x' ++ "::".toList ++ y' ↔
    (x = x' ∧ y = y') ∨ MovesOn ':' x y x' y' ∨ MovesOn ':' x' y' x y := by
  rw [← Separated.append_twice_inj_iff]
  show pre ++ x ++ [':', ':'] ++ y = pre ++ x' ++ [':', ':'] ++ y' ↔ _
  simp only [List.append_assoc, List.append_cancel_left_eq]

theorem oneField_iff {pre x x' : Text} {p : Prop} (hp : ¬ p) : pre ++ x = pre ++ x' ↔ x = x' ∨ p := by
  rw [List.append_right_inj, or_iff_left hp]

theorem not_related_of_initial_ne {d e : DiscoveryEventKind} (hi : d.initial ≠ e.initial) :
    ¬ (SameProblem d e ∨ Straddles d e) := by
  cases d <;> cases e <;> first | exact absurd rfl hi | exact fun h => h.elim id id

theorem dedupKey_eq_iff {d e : DiscoveryEventKind} : d.dedupKey = e.dedupKey ↔ SameProblem d e ∨ Straddles d e := by
  by_cases hi : d.initial = e.initial
  · cases d with
    | testFailureDiscovered suite testName =>
      cases e with
      | testFailureDiscovered => exact twoFields_iff
      | _ => exact absurd hi (by simp [initial])
    | securityVulnerabilityDiscovered source =>
      cases e with
      | securityVulnerabilityDiscovered => exact oneField_iff id
      | _ => exact absurd hi (by simp [initial])
    | codeQualityIssueDiscovered rule entity =>
      cases e with
      | codeQualityIssueDiscovered => exact twoFields_iff
      | _ => exact absurd hi (by simp [initial])
    | performanceRegressionDiscovered metric =>
      cases e with
      | performanceRegressionDiscovered => exact oneField_iff id
      | _ => exact absurd hi (by simp [initial])
    | dependencyUpdateAvailable package =>
      cases e with
      | dependencyUpdateAvailable => exact oneField_iff id
      | _ => exact absurd hi (by simp [initial])
  · exact iff_of_false (fun h => hi (initial_eq_of_dedupKey h)) (not_related_of_initial_ne hi)

theorem not_sameProblem_of_straddles {d e : DiscoveryEventKind} (h : Straddles d e) : ¬ SameProblem d e := by
  intro hs
  cases d with
  | testFailureDiscovered suite testName =>
    cases e with
    | testFailureDiscovered =>
      obtain ⟨rfl, rfl⟩ := hs
      exact h.elim Separated.not_movesOn_self Separated.not_movesOn_self
    | _ => exact h
  | codeQualityIssueDiscovered rule entity =>
    cases e with
    | codeQualityIssueDiscovered =>
      obtain ⟨rfl, rfl⟩ := hs
      exact h.elim Separated.not_movesOn_self Separated.not_movesOn_self
    | _ => exact h
  | _ => exact h

/-- **A key identifies a discovery** unless the `::` between its two fields stands further on in the other one. -/
theorem dedupKey_identifies_iff (d e : DiscoveryEventKind) :
    (d.dedupKey = e.dedupKey ↔ SameProblem d e) ↔ ¬ Straddles d e := by
  rw [dedupKey_eq_iff]
  constructor
  · intro h hs
    exact not_sameProblem_of_straddles hs (h.1 (Or.inr hs))
  · intro hs
    exact or_iff_left hs

/-- Test `b::c` of suite `a` and test `c` of suite `a::b`. -/
theorem two_tests_have_one_key :
    ¬ ∀ d e : DiscoveryEventKind, d.dedupKey = e.dedupKey ↔ SameProblem d e := by
  intro h
  have hsame := (h (testFailureDiscovered "a".toList "b::c".toList [] none)
    (testFailureDiscovered "a::b".toList "c".toList [] none)).1 (by decide)
  exact absurd hsame.1 (by decide)

end DiscoveryEventKind
end Vai
