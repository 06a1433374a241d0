import Diagnosis.Catalogue
import Diagnosis.Problem.Basic

/-!
# Circuits

Small boolean circuits as diagnosis problems. A gate that is not faulty relates its output to its
inputs as its type says. Signals are atoms about a gate, `in1(g)`, `in2(g)` and `out(g)`, and a
wire equates two of them.
-/

namespace Diagnosis.Circuits

open Formula

/-- The signal or property of a gate. -/
def signal (name gate : String) : Formula :=
  atom name [gate]

/-- The variable that stands for any gate. -/
def anyGate : String := "?x"

/-- Gates of a type that are not faulty behave as stated. -/
def gateLaw (type : String) (behaviour : Formula) : Formula :=
  univ anyGate (imp (conj [signal type anyGate, neg (signal "ab" anyGate)]) behaviour)

/-- The first input of any gate. -/
def input1 : Formula := signal "in1" anyGate

/-- The second input of any gate. -/
def input2 : Formula := signal "in2" anyGate

/-- The output of any gate. -/
def output : Formula := signal "out" anyGate

/-- The output of an AND gate is the conjunction of its inputs. -/
def andGate : Formula :=
  gateLaw "and" (equiv (conj [input1, input2]) output)

/-- The output of an OR gate is the disjunction of its inputs. -/
def orGate : Formula :=
  gateLaw "or" (equiv (disj [input1, input2]) output)

/-- The output of an XOR gate says that its inputs differ. -/
def xorGate : Formula :=
  gateLaw "exor"
    (equiv output (disj [conj [input1, neg input2], conj [neg input1, input2]]))

/-- Two signals joined by a wire. -/
def wire (name gate name' gate' : String) : Formula :=
  equiv (signal name gate) (signal name' gate')

/-- A signal observed to be low. -/
def low (name gate : String) : Formula :=
  neg (signal name gate)

/-- Two separate AND gates, each with high inputs and a low output. -/
def separateGates : Problem where
  description := [andGate, signal "and" "a1", signal "and" "a2"]
  components := ["a1", "a2"]
  observations :=
    [signal "in1" "a1", signal "in2" "a1", low "out" "a1",
     signal "in1" "a2", signal "in2" "a2", low "out" "a2"]

/-- Two AND gates in a row; the first has a low input, and yet the second has a high output. -/
def gatesInARow : Problem where
  description := [andGate, signal "and" "a1", signal "and" "a2", wire "out" "a1" "in1" "a2"]
  components := ["a1", "a2"]
  observations := [signal "in1" "a1", low "in2" "a1", signal "out" "a2"]

/-- Two AND gates feed an OR gate; all inputs are high and the output is low. -/
def gatesJoined : Problem where
  description :=
    [andGate, orGate, signal "and" "a1", signal "and" "a2", signal "or" "o1",
     wire "out" "a1" "in1" "o1", wire "out" "a2" "in2" "o1"]
  components := ["a1", "a2", "o1"]
  observations :=
    [signal "in1" "a1", signal "in2" "a1", signal "in1" "a2", signal "in2" "a2", low "out" "o1"]

/-- A full adder for one bit. It adds 1, 0 and a carry of 1, and both of its outputs are wrong. -/
def fullAdder : Problem where
  description :=
    [andGate, orGate, xorGate,
     signal "and" "a1", signal "and" "a2", signal "exor" "b1", signal "exor" "b2",
     signal "or" "r1",
     wire "in1" "fa" "in1" "b1", wire "in1" "fa" "in1" "a1",
     wire "carryin" "fa" "in1" "a2", wire "carryin" "fa" "in2" "b2",
     wire "out" "fa" "out" "b2", wire "carryout" "fa" "out" "r1",
     wire "in2" "fa" "in2" "b1", wire "in2" "fa" "in2" "a1",
     wire "out" "b1" "in2" "a2", wire "out" "b1" "in1" "b2",
     wire "out" "a2" "in1" "r1", wire "out" "a1" "in2" "r1"]
  components := ["a1", "a2", "b1", "b2", "r1"]
  observations :=
    [signal "in1" "fa", low "in2" "fa", signal "carryin" "fa", signal "out" "fa",
     low "carryout" "fa"]

/-- The category of diagnosis problems. -/
def category : String := "problem"

/-- The circuits by name. -/
def catalogue : Catalogue Problem :=
  .ofEntries category
    [("problem1", separateGates), ("problem2", gatesInARow), ("problem3", gatesJoined),
     ("problem_fa", fullAdder)]

end Diagnosis.Circuits
