import MutantSieve.Pattern.Matcher
import MutantSieve.Proofs.Pattern.Run

namespace MutantSieve.Program

/-- The calls of `search` that a search in the context `c` comes to. -/
inductive Searching (program : Program) (c : Context) (tokens : List Token) :
    Nat → Frontier program.size → List Token → Prop
  | start : Searching program c tokens 0 .empty tokens
  | next {i running closed next token rest} :
      Searching program c tokens i running (token :: rest) →
      program.close c [0] running = some closed →
      program.advance token closed.threads.toList .empty = .ok next →
      Searching program c tokens (i + 1) next rest

/-- In a search in the context `c` the thread tests the token: no thread before it has come to the
end of the pattern. -/
def Tests (program : Program) (c : Context) (tokens : List Token) (thread : Thread)
    (token : Token) : Prop :=
  ∃ i running rest closed before after next,
    program.Searching c tokens i running (token :: rest) ∧
      program.close c [0] running = some closed ∧
      closed.threads.toList = before ++ thread :: after ∧
      program.advance token before .empty = .ok next

/-- What holds of a position and a context goes on to hold with each step of a program. -/
structure Keeps (program : Program) (Holds : Nat → Context → Prop) : Prop where
  move {position target : Nat} {choice : List Bool} {c : Context} :
    program.Moves position choice target → Holds position c → Holds target c
  test {position : Nat} {p : Predicate} {token : Token} {c : Context} :
    program[position]? = some (.test p) → Holds position c → (p.test token c).1 = true →
      Holds (position + 1) (p.test token c).2

/-- What holds of a position and a context at some offset goes on to hold with each step of a
program on the tokens. -/
structure KeepsAt (program : Program) (tokens : List Token)
    (HoldsAt : Nat → Nat → Context → Prop) : Prop where
  move {i position target : Nat} {choice : List Bool} {c : Context} :
    program.Moves position choice target → HoldsAt i position c → HoldsAt i target c
  test {i position : Nat} {p : Predicate} {token : Token} {c : Context} :
    tokens[i]? = some token → program[position]? = some (.test p) → HoldsAt i position c →
      (p.test token c).1 = true → HoldsAt (i + 1) (position + 1) (p.test token c).2

theorem Keeps.keepsAt {program : Program} {Holds : Nat → Context → Prop}
    (keeps : program.Keeps Holds) (tokens : List Token) :
    program.KeepsAt tokens fun _ => Holds :=
  ⟨keeps.move, fun _ => keeps.test⟩

/-- Each thread waits at a test, and something holds of its position and context. -/
def Waiting (program : Program) (Holds : Nat → Context → Prop) (threads : List Thread) : Prop :=
  ∀ thread ∈ threads, (∃ p, program[thread.position]? = some (.test p)) ∧
    Holds thread.position thread.context

variable {program : Program} {tokens : List Token} {Holds Later : Nat → Context → Prop}
  {HoldsAt : Nat → Nat → Context → Prop} {c : Context} {f next : Frontier program.size}
  {pending : List Nat} {thread : Thread} {token : Token}

theorem waiting_close
    (moves : ∀ {position choice target}, program.Moves position choice target →
      Holds position c → Holds target c)
    (holds : ∀ position ∈ pending, Holds position c)
    (waiting : program.Waiting Holds f.threads.toList)
    (closed : program.close c pending f = some next) :
    program.Waiting Holds next.threads.toList := by
  fun_induction Program.close program c pending f with
  | case1 =>
    obtain rfl := Option.some.inj closed
    exact waiting
  | case2 position pending f inside old ih | case7 position pending f outside ih =>
    exact ih (fun p later => holds p (List.mem_cons_of_mem _ later)) waiting closed
  | case3 => cases closed
  | case4 position pending f inside new target step ih =>
    have step := Array.getElem?_eq_some_iff.mpr ⟨inside, step⟩
    obtain ⟨here, later⟩ := List.forall_mem_cons.mp holds
    exact ih (List.forall_mem_cons.mpr ⟨moves (.jump step) here, later⟩) waiting closed
  | case5 position pending f inside new first second step ih =>
    have step := Array.getElem?_eq_some_iff.mpr ⟨inside, step⟩
    obtain ⟨here, later⟩ := List.forall_mem_cons.mp holds
    refine ih (List.forall_mem_cons.mpr ⟨moves (.first step) here, ?_⟩) waiting closed
    exact List.forall_mem_cons.mpr ⟨moves (.second step) here, later⟩
  | case6 position pending f inside new p step ih =>
    have step := Array.getElem?_eq_some_iff.mpr ⟨inside, step⟩
    obtain ⟨here, later⟩ := List.forall_mem_cons.mp holds
    refine ih later (fun thread member => ?_) closed
    rcases Array.mem_push.mp (Array.mem_toList_iff.mp member) with old | rfl
    · exact waiting thread (Array.mem_toList_iff.mpr old)
    · exact ⟨⟨p, step⟩, here⟩

/-- What held of the threads before a token gives what holds of those that are left behind it. -/
theorem waiting_advance
    (moves : ∀ {position choice target c}, program.Moves position choice target →
      Later position c → Later target c)
    (tests : ∀ {position p c}, program[position]? = some (.test p) → Holds position c →
      (p.test token c).1 = true → Later (position + 1) (p.test token c).2)
    {threads : List Thread} (moving : program.Waiting Holds threads)
    (waiting : program.Waiting Later f.threads.toList)
    (advanced : program.advance token threads f = .ok next) :
    program.Waiting Later next.threads.toList := by
  induction threads generalizing f with
  | nil =>
    obtain rfl := Except.ok.inj advanced
    exact waiting
  | cons thread others ih =>
    obtain ⟨⟨⟨p, step⟩, here⟩, later⟩ := List.forall_mem_cons.mp moving
    simp only [Program.advance, step] at advanced
    split at advanced
    · next accepts =>
      split at advanced
      · next closed =>
        refine ih later (waiting_close moves (fun position member => ?_) waiting closed) advanced
        obtain rfl := List.mem_singleton.mp member
        exact tests step here accepts
      · cases advanced
    · exact ih later waiting advanced

theorem Keeps.close (keeps : program.Keeps Holds) (holds : ∀ position ∈ pending, Holds position c)
    (waiting : program.Waiting Holds f.threads.toList)
    (closed : program.close c pending f = some next) :
    program.Waiting Holds next.threads.toList :=
  waiting_close keeps.move holds waiting closed

theorem Keeps.advance (keeps : program.Keeps Holds) {threads : List Thread}
    (moving : program.Waiting Holds threads) (waiting : program.Waiting Holds f.threads.toList)
    (advanced : program.advance token threads f = .ok next) :
    program.Waiting Holds next.threads.toList :=
  waiting_advance keeps.move keeps.test moving waiting advanced

theorem waiting_empty (program : Program) {Holds : Nat → Context → Prop} :
    program.Waiting Holds (Frontier.empty : Frontier program.size).threads.toList :=
  fun _ member => nomatch member

/-- A search has the rest of the tokens before it, and what the steps keep holds of all threads that
are running. -/
theorem Searching.waitingAt (keeps : program.KeepsAt tokens HoldsAt) (starts : ∀ i, HoldsAt i 0 c)
    {i : Nat} {running : Frontier program.size} {rest : List Token}
    (searching : program.Searching c tokens i running rest) :
    tokens.drop i = rest ∧ program.Waiting (HoldsAt i) running.threads.toList := by
  induction searching with
  | start => exact ⟨rfl, waiting_empty program⟩
  | @next i _ _ _ token _ _ closed advanced ih =>
    obtain ⟨left, waiting⟩ := ih
    have here : tokens[i]? = some token := by rw [← List.head?_drop, left, List.head?_cons]
    refine ⟨by rw [← List.tail_drop, left, List.tail_cons], ?_⟩
    exact waiting_advance keeps.move (keeps.test here)
      (waiting_close keeps.move (by simpa using starts i) waiting closed) (waiting_empty program)
      advanced

/-- What the steps of a program keep on the tokens, holds whenever a thread tests one of them. -/
theorem Tests.keptAt (keeps : program.KeepsAt tokens HoldsAt) (starts : ∀ i, HoldsAt i 0 c)
    (tests : program.Tests c tokens thread token) :
    ∃ i, tokens[i]? = some token ∧ HoldsAt i thread.position thread.context := by
  obtain ⟨i, running, rest, closed, before, after, next, searching, close, split, -⟩ := tests
  obtain ⟨left, waiting⟩ := searching.waitingAt keeps starts
  refine ⟨i, by rw [← List.head?_drop, left, List.head?_cons], ?_⟩
  refine (waiting_close keeps.move (by simpa using starts i) waiting close thread ?_).2
  simp [split]

/-- What the steps of a program keep, holds whenever a thread tests a token. -/
theorem Tests.kept (keeps : program.Keeps Holds) (starts : Holds 0 c)
    (tests : program.Tests c tokens thread token) : Holds thread.position thread.context := by
  obtain ⟨-, -, holds⟩ := tests.keptAt (keeps.keepsAt tokens) fun _ => starts
  exact holds

end MutantSieve.Program
