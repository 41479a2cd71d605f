import SeqAsm.Arith.Basic
import SeqAsm.Diagnostic.Basic

/-!
How arithmetic faults are reported.
-/

namespace SeqAsm.Arith.Fault

/-- The failure that a fault becomes. Only a binomial coefficient that is too wide has no
report. -/
def failure : Fault → Failure
  | divisionByZero => .of (.divisionByZero "Division by zero") []
  | zeroToNegativePower => .of (.divisionByZero "Power zero division") []
  | tooLarge bits => .of (.magnitudeLimit bits none) []
  | overLimit bits limit => .of (.magnitudeLimit bits (some limit)) []
  | logOfNonPositive n => .of (.domain ("log of non-positive value " ++ toString n)) []
  | logBase base => .of (.domain ("log with base " ++ toString base)) []
  | rootOfNegative n => .of (.domain ("root of negative value " ++ toString n)) []
  | rootDegree degree => .of (.domain ("root of degree " ++ toString degree)) []
  | rootDegreeTooLarge degree =>
    .of (.domain ("root of degree " ++ toString degree ++ " is too large")) []
  | digitSumBase base => .of (.domain ("digit sum with base " ++ toString base)) []
  | digitalRootBase base => .of (.domain ("digital root with base " ++ toString base)) []
  | binomialTooWide => .crash .countOverflow

end SeqAsm.Arith.Fault
