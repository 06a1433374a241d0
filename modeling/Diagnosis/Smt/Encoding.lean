import Diagnosis.Distinct
import Diagnosis.Fault
import Diagnosis.Formula.Basic
import Diagnosis.Smt.Term

/-!
# Formulas as terms

`encode` turns formulas into terms, one after the other, and keeps a signature of the constants
and predicates they use, in order of first use. A formula that cannot be encoded leaves what it
entered before. A predicate is entered before its arguments; bound variables are not entered, and
neither are predicates without arguments. The signature keeps full names, the terms have symbols.
-/

namespace Diagnosis.Smt

/-- The constants and the predicates with their numbers of arguments. -/
structure Signature where
  constants : List String := []
  predicates : List (String × Nat) := []
  deriving DecidableEq, Repr, Inhabited

/-- A step of the encoding: it may fail, and the signature it leaves is kept all the same. -/
abbrev Encoder := ExceptT Fault (StateM Signature)

/-- The bound variables in scope, innermost first. A quantifier without a variable binds none, but
counts. -/
abbrev Scope := List (Option String)

/-- The symbol that a quantifier binds. Without a variable it binds the symbol without text. -/
def binderSymbol (binder : Option String) : String :=
  symbol (binder.getD "")

/-- The individual for a term. A term that is no variable in scope is a constant and is entered. The
individual depends on the symbol alone: the innermost quantifier over that symbol binds it, even
where the term was entered as a constant. -/
def encodeIndividual (scope : Scope) (term : String) : Encoder Individual := do
  if !scope.contains (some term) then
    if isVariable term then throw (.freeVariable term)
    modify fun signature => { signature with constants := enter term signature.constants }
  match (scope.map binderSymbol).idxOf? (symbol term) with
  | some index => return .bound index
  | none => return .constant (symbol term)

/-- The term for an atom. -/
def encodeAtom (scope : Scope) (a : Atom) : Encoder Term := do
  if a.args.isEmpty then return .predicate (symbol a.name) []
  modify fun signature =>
    { signature with predicates := enter (a.name, a.args.length) signature.predicates }
  return .predicate (symbol a.name) (← a.args.mapM (encodeIndividual scope))

mutual

/-- The term for a formula. Whatever is neither an atom nor one of the other connectives is taken
for an existential quantifier. -/
def encode : Formula → Scope → Encoder Term
  | ⟨some a, _, _, _, _⟩, scope => encodeAtom scope a
  | ⟨none, some .and, [], _, _⟩, _ => return .truth true
  | ⟨none, some .and, f :: fs, _, _⟩, scope => do
    let part ← encode f scope
    return .conj (part :: (← encodeAll fs scope))
  | ⟨none, some .or, [], _, _⟩, _ => return .truth false
  | ⟨none, some .or, f :: fs, _, _⟩, scope => do
    let part ← encode f scope
    return .disj (part :: (← encodeAll fs scope))
  | ⟨none, some .not, [], _, _⟩, _ => throw .missingOperand
  | ⟨none, some .not, f :: _, _, _⟩, scope => return .neg (← encode f scope)
  | ⟨none, some .implies, [f, g], _, _⟩, scope => do
    let left ← encode f scope
    return .imp left (← encode g scope)
  | ⟨none, some .implies, fs, _, _⟩, _ => throw (.operandCount fs.length)
  | ⟨none, some .iff, [f, g], _, _⟩, scope => do
    let left ← encode f scope
    return .equivalence left (← encode g scope)
  | ⟨none, some .iff, fs, _, _⟩, _ => throw (.operandCount fs.length)
  | ⟨none, _, [], _, _⟩, _ => throw .missingOperand
  | ⟨none, some .universal, f :: _, x, _⟩, scope =>
    return .quantified .universal (binderSymbol x) (← encode f (x :: scope))
  | ⟨none, _, f :: _, x, _⟩, scope =>
    return .quantified .existential (binderSymbol x) (← encode f (x :: scope))
termination_by structural f => f

/-- The terms for the formulas of a list. -/
def encodeAll : List Formula → Scope → Encoder (List Term)
  | [], _ => return []
  | f :: fs, scope => do
    let term ← encode f scope
    return term :: (← encodeAll fs scope)
termination_by structural fs => fs

end

/-- The term for a formula outside all quantifiers, or its fault, and the signature after it. -/
def encodeClosed (f : Formula) (signature : Signature) : Except Fault Term × Signature :=
  (encode f []).run.run signature

/-- The terms for formulas one after the other, faults among them, and the last signature. -/
def encodeEach : List Formula → Signature → List (Except Fault Term) × Signature
  | [], signature => ([], signature)
  | f :: fs, signature =>
    let (result, signature) := encodeClosed f signature
    let (results, signature) := encodeEach fs signature
    (result :: results, signature)

/-- The statement that the constants of a signature are pairwise different. -/
def Signature.uniqueNames (signature : Signature) : List Term :=
  if signature.constants.length < 2 then []
  else [.distinct (signature.constants.map symbol)]

end Diagnosis.Smt
