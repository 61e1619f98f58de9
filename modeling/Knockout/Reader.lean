import Knockout.Diagnostic
import Knockout.Tournament

namespace Knockout

inductive Declaration where
  | info (keyword : Token) (entries : KeyMap String)
  | teams (teams : List Team)
  | phase (keyword : Token) (fixtures : List Fixture)
deriving DecidableEq

/--
What happens, in order, while a document is read. Each token is either taken, as a part of the document,
or skipped. A report stands at a token, or at the end of the input.
-/
inductive Step where
  | take (token : Token)
  | skip (token : Token) (context : Context)
  | report (cause : Cause) (found : Option Token)
  | ignore (key : Token)
  | declare (declaration : Declaration)
deriving DecidableEq

def Step.consumed? : Step → Option Token
  | take token | skip token _ => some token
  | _ => none

def consumed (steps : List Step) : List Token :=
  steps.filterMap Step.consumed?

@[simp]
theorem consumed_nil : consumed [] = [] := rfl

@[simp]
theorem consumed_append (a b : List Step) : consumed (a ++ b) = consumed a ++ consumed b :=
  List.filterMap_append

@[simp]
theorem consumed_take (t : Token) (steps : List Step) : consumed (.take t :: steps) = t :: consumed steps := rfl

@[simp]
theorem consumed_skip (t : Token) (context : Context) (steps : List Step) :
    consumed (.skip t context :: steps) = t :: consumed steps := rfl

@[simp]
theorem consumed_report (cause : Cause) (found : Option Token) (steps : List Step) :
    consumed (.report cause found :: steps) = consumed steps := rfl

structure Outcome (α : Type) where
  value : α
  steps : List Step
  rest : List Token

/-- A way to read the head of a token list, which takes or skips every token that it does not leave. -/
@[ext]
structure Reader (α : Type) where
  run : List Token → Outcome α
  accounts : ∀ tokens, consumed (run tokens).steps ++ (run tokens).rest = tokens

namespace Reader

variable {α β : Type}

theorem rest_length (r : Reader α) (tokens : List Token) : (r.run tokens).rest.length ≤ tokens.length := by
  have := congrArg List.length (r.accounts tokens)
  simp only [List.length_append] at this
  omega

def result (value : α) : Reader α := ⟨fun tokens => ⟨value, [], tokens⟩, fun _ => rfl⟩

def andThen (r : Reader α) (next : α → Reader β) : Reader β where
  run tokens :=
    let first := r.run tokens
    let second := (next first.value).run first.rest
    ⟨second.value, first.steps ++ second.steps, second.rest⟩
  accounts tokens := by
    simp [(next (r.run tokens).value).accounts, r.accounts]

instance : Monad Reader where
  pure := result
  bind := andThen

@[simp]
theorem run_pure (value : α) (tokens : List Token) :
    (pure value : Reader α).run tokens = ⟨value, [], tokens⟩ := rfl

@[simp]
theorem run_bind (r : Reader α) (next : α → Reader β) (tokens : List Token) :
    (r >>= next).run tokens =
      ⟨((next (r.run tokens).value).run (r.run tokens).rest).value,
        (r.run tokens).steps ++ ((next (r.run tokens).value).run (r.run tokens).rest).steps,
        ((next (r.run tokens).value).run (r.run tokens).rest).rest⟩ := rfl

def report (cause : Cause) : Reader Unit :=
  ⟨fun tokens => ⟨(), [.report cause tokens.head?], tokens⟩, fun _ => rfl⟩

def reportAt (t : Token) (cause : Cause) : Reader Unit :=
  ⟨fun tokens => ⟨(), [.report cause (some t)], tokens⟩, fun _ => rfl⟩

def ignore (key : Token) : Reader Unit :=
  ⟨fun tokens => ⟨(), [.ignore key], tokens⟩, fun _ => rfl⟩

def declare (d : Declaration) : Reader Unit :=
  ⟨fun tokens => ⟨(), [.declare d], tokens⟩, fun _ => rfl⟩

def takeIf (accepts : Token → Bool) : Reader (Option Token) where
  run
    | [] => ⟨none, [], []⟩
    | t :: rest => if accepts t then ⟨some t, [.take t], rest⟩ else ⟨none, [], t :: rest⟩
  accounts
    | [] => rfl
    | t :: rest => by dsimp only; split <;> rfl

def takeKind (kind : TokenKind) : Reader (Option Token) :=
  takeIf fun t => t.kind = kind

/--
What a list makes of the token that it meets: the end of the list, which is taken or left where it stands,
a separator, the first token of an item, or a token that does not belong here.
-/
inductive Turn (α : Type) where
  | finish
  | leave (cause : Option Cause)
  | pass
  | enter (item : Reader α)
  | drop (context : Context)

def itemsFrom (turn : Token → List Token → Turn α) (unfinished : Option Cause) :
    List Token → Outcome (List α)
  | [] => ⟨[], unfinished.toList.map (.report · none), []⟩
  | t :: rest =>
    match turn t rest with
    | .finish => ⟨[], [.take t], rest⟩
    | .leave cause => ⟨[], cause.toList.map (.report · (some t)), t :: rest⟩
    | .pass =>
      let more := itemsFrom turn unfinished rest
      ⟨more.value, .take t :: more.steps, more.rest⟩
    | .enter item =>
      let first := item.run rest
      let more := itemsFrom turn unfinished first.rest
      ⟨first.value :: more.value, .take t :: (first.steps ++ more.steps), more.rest⟩
    | .drop context =>
      let more := itemsFrom turn unfinished rest
      ⟨more.value, .skip t context :: more.steps, more.rest⟩
termination_by tokens => tokens.length
decreasing_by
  · simp
  · exact Nat.lt_succ_of_le (item.rest_length rest)
  · simp

theorem consumed_reports (cause : Option Cause) (found : Option Token) :
    consumed (cause.toList.map (.report · found)) = [] := by
  cases cause <;> rfl

theorem itemsFrom_accounts (turn : Token → List Token → Turn α) (unfinished : Option Cause) (tokens : List Token) :
    consumed (itemsFrom turn unfinished tokens).steps ++ (itemsFrom turn unfinished tokens).rest = tokens := by
  fun_induction itemsFrom turn unfinished tokens with
  | case1 => simp [consumed_reports]
  | case2 => rfl
  | case3 => simp [consumed_reports]
  | case4 t rest _ more ih => simpa using ih
  | case5 t rest item _ first more ih => simp [more, first, ih, item.accounts]
  | case6 t rest context _ more ih => simpa using ih

def items (turn : Token → List Token → Turn α) (unfinished : Option Cause) : Reader (List α) :=
  ⟨itemsFrom turn unfinished, itemsFrom_accounts turn unfinished⟩

theorem items_rest_eq_nil (turn : Token → List Token → Turn α) (unfinished : Option Cause)
    (h : ∀ t rest, turn t rest ≠ .finish ∧ ∀ cause, turn t rest ≠ .leave cause) (tokens : List Token) :
    ((items turn unfinished).run tokens).rest = [] := by
  change (itemsFrom turn unfinished tokens).rest = []
  fun_induction itemsFrom turn unfinished tokens with
  | case1 => rfl
  | case2 t rest he => exact absurd he (h t rest).1
  | case3 t rest cause he => exact absurd he ((h t rest).2 cause)
  | case4 t rest _ more ih => exact ih
  | case5 t rest item _ first more ih => exact ih
  | case6 t rest context _ more ih => exact ih

end Reader

end Knockout
