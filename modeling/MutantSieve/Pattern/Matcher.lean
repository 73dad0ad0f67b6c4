import MutantSieve.Pattern.Frontier
import MutantSieve.Pattern.SlotCheck

namespace MutantSieve

/-- Why a query is refused. -/
inductive QueryError where
  /-- Some way through the query reads a slot before it is bound. -/
  | unboundSlot (slot : SlotKey)
  /-- The predicate for ignored instructions captures. -/
  | capturingIgnore (slot : SlotKey)
deriving DecidableEq

/-- The text of an error. -/
def QueryError.message : QueryError → String
  | unboundSlot slot => "Query error: slot '" ++ slot.name ++ "' is read before it is bound"
  | capturingIgnore slot => "Query error: ignore predicate captures into slot '" ++ slot.name ++ "'"

/-- A compiled query, and the predicate for the tokens that it passes over. -/
structure Matcher where
  program : Program
  ignores : Option Predicate
deriving DecidableEq

/-- Where a match ends, counted in significant tokens, and what it has captured. -/
structure Match where
  finish : Nat
  context : Context
deriving DecidableEq

/-- The text of a match in logs. -/
def Match.message (m : Match) : String :=
  "sequence matched ending at significant offset " ++ toString m.finish

/-- The tokens that a predicate rejects, in order. Each test starts from the context that the test
before it left. -/
def Predicate.rejected (p : Predicate) : List Token → Context → Array Token → Array Token
  | [], _, kept => kept
  | token :: rest, c, kept =>
    let tested := p.test token c
    p.rejected rest tested.2 (if tested.1 then kept else kept.push token)

namespace Program

/-- Lets each thread test a token; those that accept it go on and are followed to the next tests.
The context of the first to reach the end of the pattern is returned as the error. -/
def advance (program : Program) (token : Token) :
    List Thread → Frontier program.size → Except Context (Frontier program.size)
  | [], next => .ok next
  | thread :: rest, next =>
    match program[thread.position]? with
    | some (.test p) =>
      let tested := p.test token thread.context
      if tested.1 then
        match program.close tested.2 [thread.position + 1] next with
        | some next => program.advance token rest next
        | none => .error tested.2
      else program.advance token rest next
    | _ => program.advance token rest next

/-- Looks for the end of the pattern from an offset on, where some threads are already running. At
each offset a fresh thread starts behind them in the context `c`. -/
def search (program : Program) (c : Context) :
    (offset : Nat) → Frontier program.size → List Token → Option Match
  | offset, running, tokens =>
    match program.close c [0] running with
    | none => some ⟨offset, c⟩
    | some running =>
      match tokens with
      | [] => none
      | token :: rest =>
        match program.advance token running.threads.toList .empty with
        | .error found => some ⟨offset + 1, found⟩
        | .ok next => program.search c (offset + 1) next rest

end Program

namespace Matcher

/-- The tokens of a body that are not ignored. -/
def significant (m : Matcher) (body : Body) (c : Context) : List Token :=
  match m.ignores with
  | none => body.tokens
  | some p => (p.rejected body.tokens c #[]).toList

/-- Looks for the pattern anywhere in a body, given the slots that are bound beforehand. -/
def find? (m : Matcher) (body : Body) (c : Context) : Option Match :=
  m.program.search c 0 .empty (m.significant body c)

end Matcher

/-- Why a predicate cannot be the one for ignored instructions: it captures, or it reads. -/
def Predicate.ignoreError? (p : Predicate) : Option QueryError :=
  match p.writes, p.reads with
  | slot :: _, _ => some (.capturingIgnore slot)
  | [], slot :: _ => some (.unboundSlot slot)
  | [], [] => none

namespace Query

/-- The matcher of a query, without a check of its slots. -/
def matcher (q : Query) (ignores : Option Predicate) : Matcher := ⟨q.program, ignores⟩

/-- The matcher of a query that reads slots only when they are bound; `bound` lists the slots that
are bound beforehand. -/
def compile (q : Query) (ignores : Option Predicate) (bound : List SlotKey) :
    Except QueryError Matcher :=
  match ignores.bind Predicate.ignoreError? with
  | some e => .error e
  | none =>
    match q.boundAfter bound with
    | .error slot => .error (.unboundSlot slot)
    | .ok _ => .ok (q.matcher ignores)

end Query

end MutantSieve
