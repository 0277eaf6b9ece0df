import GoSignatures.Classification.Representable

/-!
# Supported signatures

A signature is supported when it is that of a plain function over representable types. Every
failing check is listed, in a fixed order: receiver, type parameters, variadic, parameters by
index, results by index.

* `Signature.obstacles` — the failing checks
* `Signature.isSupported` — there are none
-/

namespace GoSignatures

/-- Why a signature is not supported. Indices count from 0. -/
inductive Obstacle where
  | receiver
  | typeParameters
  | variadic
  | parameter (index : Nat)
  | result (index : Nat)
deriving DecidableEq, Repr

/-- The indices at which the types of `vars` cannot be represented, counted from `start`. -/
def Table.unrepresented (t : Table) (place : Place) : Nat → List Var → List Nat
  | _, [] => []
  | start, v :: vs =>
    (if t.represents place v.type then [] else [start]) ++ t.unrepresented place (start + 1) vs

/-- The failing checks of a signature, in their fixed order. -/
def Signature.obstacles (t : Table) (sig : Signature) : List Obstacle :=
  (if sig.receiver.isSome then [.receiver] else []) ++
    (if sig.typeParams.isEmpty then [] else [.typeParameters]) ++
    (if sig.variadic then [.variadic] else []) ++
    (t.unrepresented .parameter 0 sig.params).map .parameter ++
    (t.unrepresented .result 0 sig.results).map .result

/-- Whether no check fails. -/
def Signature.isSupported (t : Table) (sig : Signature) : Bool :=
  (sig.obstacles t).isEmpty

end GoSignatures
