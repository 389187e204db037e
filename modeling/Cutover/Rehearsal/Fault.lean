import Cutover.Error
import Cutover.Store

/-! # Injected faults

In a rehearsal the operator may tell a store to fail.  A rule names the calls it is about; it lets
some of them pass first and then takes effect a limited number of times.  The rules of a store are
tried in the order in which they were given, and the first that takes effect decides.
-/

namespace Cutover.Rehearsal

/-- What a rule does to a call. -/
inductive Effect where
  | fail (e : StoreError)
  /-- The call is carried out, but a column of the rows it reads goes by another name. -/
  | rename (column name : String)
  deriving DecidableEq

/-- A rule for faults of a store. -/
structure Rule where
  effect : Effect
  /-- The name of the calls it is about; any call if there is none. -/
  call : Option String := none
  /-- The first argument of the calls it is about. -/
  firstArg : Option Int64 := none
  /-- A part of the text of the calls it is about. -/
  part : Option String := none
  /-- How many calls pass first. -/
  skip : Nat := 0
  /-- How often the rule takes effect; for ever if there is no number. -/
  times : Option Nat := none
  deriving DecidableEq

/-- Whether a text occurs in another. -/
def occursIn (part : List Char) : List Char → Bool
  | [] => part.isEmpty
  | c :: r => part.isPrefixOf (c :: r) || occursIn part r

namespace Rule

/-- Whether a rule is about a call and not used up. -/
def applies (r : Rule) (c : Call) : Bool :=
  let statement := c.statement?.getD ⟨"", []⟩
  r.times ≠ some 0 && r.call.all (· == c.name) &&
    r.firstArg.all (fun i => statement.args.head? = some (.int i)) &&
    r.part.all fun s => occursIn s.toList statement.sql.toList

/-- A rule that has let a call pass. -/
def pass (r : Rule) : Rule := { r with skip := r.skip - 1 }

/-- A rule that has taken effect. -/
def use (r : Rule) : Rule := { r with times := r.times.map (· - 1) }

/-- What the rules do to a call, and the rules after it. -/
def meet (c : Call) : List Rule → Option Effect × List Rule
  | [] => (none, [])
  | r :: rs =>
    if r.applies c && r.skip = 0 then (some r.effect, r.use :: rs)
    else
      let (effect, rest) := meet c rs
      (effect, (if r.applies c then r.pass else r) :: rest)

end Rule
end Cutover.Rehearsal
