import FileRouter.Failure.Basic
import FileRouter.Spec.Locator
import FileRouter.Text.Blank
/-!
Provider specs.

A spec says in one text how a provider is made: `name`, `name?key=value`, `name://target` or
`name://target?key=value`. `Spec.parse` reads it. The bare forms have an empty target; a text with
`://` anywhere is read as a locator. Of the parameters, those with an empty value are dropped, and the
first value of a key counts.
-/

namespace FileRouter

/-- What a spec says: the name of a maker, its target, and its parameters with distinct keys in the
order of their first use. -/
structure Spec where
  name : Text
  target : Text
  params : List (Text × Text)
  deriving Repr, DecidableEq

namespace Spec

/-- The pairs of a query, decoded; a pair without a value is left out. -/
def pairs (query : Text) : List (Text × Text) :=
  (Text.parts '&' query).filterMap fun pair =>
    let key := Text.before '=' pair
    let value := Text.after '=' pair
    if value.isEmpty then none else some (Text.percentDecoded key, Text.percentDecoded value)

/-- The pairs whose key has not occurred before. -/
def firstOfEach : List (Text × Text) → List (Text × Text)
  | [] => []
  | pair :: rest => pair :: (firstOfEach rest).filter fun other => other.1 != pair.1

/-- The parameters of a query. -/
def paramsOf (query : Text) : List (Text × Text) :=
  firstOfEach (pairs query)

/-- The value of a parameter. -/
def param? (spec : Spec) (key : Text) : Option Text :=
  (spec.params.find? fun pair => pair.1 == key).map Prod.snd

/-- The name, the target and the query of a spec, before anything is decoded. -/
def cut (text : Text) : Except Failure (Text × Text × Text) :=
  if Text.occursIn "://".toList text then
    match Locator.read text with
    | .error fault => .error (.badValue fault)
    | .ok locator => .ok (locator.scheme, locator.host ++ locator.path, locator.query)
  else .ok (Text.before '?' text, [], Text.after '?' text)

/-- Reads a spec; it has to name a maker. -/
def parse (text : Text) : Except Failure Spec :=
  match cut text with
  | .error failure => .error failure
  | .ok (name, target, query) =>
    let name := Text.trimmed name
    if name.isEmpty then
      .error (.badValue ("Invalid provider spec: missing name in '".toList ++ text ++ ['\'']))
    else .ok ⟨name, target, paramsOf query⟩

/-- The parameters in the order of their keys. -/
def sortedParams (spec : Spec) : List (Text × Text) :=
  (Text.sorted (spec.params.map Prod.fst)).filterMap fun key =>
    (spec.param? key).map fun value => (key, value)

end Spec

end FileRouter
