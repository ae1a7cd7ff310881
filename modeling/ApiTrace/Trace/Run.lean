import ApiTrace.Trace.Search

/-!
# Runs

Any number of searches that are open at the same time. Each has a number, and goes on where it was
left when it is asked for its next match.
-/

namespace ApiTrace

/-- What can be asked of a search. -/
inductive Request where
  | next
  | close
deriving DecidableEq

/-- Does what is asked of a search. Only the question for the next match is answered. -/
def Plan.serve {t : Tracer} {ε τ : Type} (p : Plan t ε τ) (s : Search τ) :
    Request → Option (Reply ε) × Search τ
  | .next =>
    let (reply, left) := p.next s
    (some reply, left)
  | .close => (none, s.close)

/-- The searches that have been started, by number. They can be of different kinds. -/
structure Runs {κ : Type} (τ : κ → Type) where
  searches : List ((k : κ) × Search (τ k))

/-- What can be done with searches. -/
inductive Command {κ : Type} (τ : κ → Type) where
  | start (k : κ) (s : Search (τ k))
  | serve (number : Nat) (request : Request)

namespace Runs

variable {κ : Type} {τ : κ → Type} {t : Tracer} {ε : Type} (p : (k : κ) → Plan t ε (τ k))

/-- No searches. -/
def empty : Runs τ := ⟨[]⟩

/-- Starts a search. Its number is how many have been started before. -/
def start (r : Runs τ) (k : κ) (s : Search (τ k)) : Runs τ := ⟨r.searches ++ [⟨k, s⟩]⟩

/-- Asks something of a search. -/
def serve (r : Runs τ) (number : Nat) (request : Request) : Option (Reply ε) × Runs τ :=
  match r.searches[number]? with
  | none => (none, r)
  | some ⟨k, s⟩ =>
    let (reply, left) := (p k).serve s request
    (reply, ⟨r.searches.set number ⟨k, left⟩⟩)

/-- Takes all matches that are left of a search. -/
def rest (r : Runs τ) (number : Nat) : Emission ε × Runs τ :=
  match r.searches[number]? with
  | none => (.empty, r)
  | some ⟨k, s⟩ => ((p k).rest s, ⟨r.searches.set number ⟨k, s.close⟩⟩)

/-- Performs commands one after the other. The answers come with the numbers of the searches. -/
def perform (r : Runs τ) : List (Command τ) → List (Nat × Reply ε) × Runs τ
  | [] => ([], r)
  | .start k s :: commands => (r.start k s).perform commands
  | .serve number request :: commands =>
    let (reply, r) := r.serve p number request
    let (replies, r) := r.perform commands
    (reply.toList.map (number, ·) ++ replies, r)

end Runs

end ApiTrace
