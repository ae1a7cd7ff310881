import ApiTrace.Proofs.Flow.Emission
import ApiTrace.Trace.Run

/-!
# The stack of a search

A search takes every variable off its stack that it put there, whether it comes to its end, is given
up or ends in a fault. The invariant is `Search.Balanced`: the agenda still takes off as many
variables as there are on the stack. One entry of the agenda keeps it (`Search.Balanced.move`), and
so does a question for the next match (`Plan.answers_next`).

`Plan.serveAll_replies` says what a search answers to any requests: the matches that are left of it,
in their order, then the fault, if there is one, and from then on, or once it is given up, that it
has ended.
-/

namespace ApiTrace

namespace Search

variable {τ : Type} {s : Search τ}

/-- How many variables an agenda takes off the stack. -/
def leaves : List (Entry τ) → Nat
  | [] => 0
  | .task _ :: rest => leaves rest
  | .leave :: rest => leaves rest + 1

/-- No variable is on the stack twice, and all of them will be taken off it. -/
structure Balanced (s : Search τ) : Prop where
  nodup : s.stack.Nodup
  leaves_eq : leaves s.agenda = s.stack.length

/-- A search at its end. -/
def done : Search τ := ⟨[], []⟩

theorem leaves_tasks (tasks : List τ) (rest : List (Entry τ)) :
    leaves (tasks.map .task ++ rest) = leaves rest := by
  induction tasks with
  | nil => rfl
  | cons a tasks ih => exact ih

theorem unwind_eq (agenda : List (Entry τ)) (stack : List VariableId) :
    unwind agenda stack = stack.drop (leaves agenda) := by
  induction agenda generalizing stack with
  | nil => rfl
  | cons entry rest ih =>
    cases entry with
    | task a => exact ih stack
    | leave =>
      show unwind rest stack.tail = stack.drop (leaves rest + 1)
      rw [ih, ← List.drop_one, List.drop_drop, Nat.add_comm]

theorem Balanced.close (h : s.Balanced) : s.close = done := by
  show Search.mk (unwind s.agenda s.stack) [] = done
  rw [unwind_eq, h.leaves_eq, List.drop_length]
  rfl

theorem balanced_ofTasks (tasks : List τ) : (ofTasks tasks).Balanced := by
  constructor
  · exact List.nodup_nil
  · show leaves (tasks.map .task) = 0
    rw [← List.append_nil (tasks.map _), leaves_tasks]
    rfl

theorem balanced_done : (done : Search τ).Balanced := balanced_ofTasks []

/-! ## One entry of the agenda -/

section Move

variable {t : Tracer} {ε : Type}

/-- What a move makes of a balanced search. -/
def Keeps (s : Search τ) : Move ε τ → Prop
  | .ended => s = done
  | .raised _ left => left = done
  | .found m left => left.Balanced ∧ left.stack = m.via
  | .went left => left.Balanced

theorem Balanced.move (h : s.Balanced) (p : Plan t ε τ) : s.Keeps (p.move s) := by
  obtain ⟨stack, agenda⟩ := s
  obtain ⟨hnodup, hleaves⟩ := h
  unfold Plan.move
  cases agenda with
  | nil =>
    obtain rfl : stack = [] := List.eq_nil_of_length_eq_zero hleaves.symm
    rfl
  | cons entry rest =>
    cases entry with
    | leave =>
      refine ⟨hnodup.tail, ?_⟩
      show leaves rest = stack.tail.length
      rw [List.length_tail, ← hleaves]
      rfl
    | task a =>
      -- A task takes nothing off the stack itself, so the rest of the agenda takes off all of it.
      have hrest : Balanced ⟨stack, rest⟩ := ⟨hnodup, hleaves⟩
      obtain ⟨rank, hfits⟩ := p.ranked
      have hfit := hfits a
      dsimp only
      split
      · exact hrest.close
      · next found hact =>
        rw [hact] at hfit
        split
        · next m hm => exact ⟨hrest, (hfit hm).symm⟩
        · exact hrest
      · next tasks _ => exact ⟨hnodup, (leaves_tasks tasks rest).trans hleaves⟩
      · next x tasks _ =>
        split
        · exact hrest
        · next hx =>
          refine ⟨List.nodup_cons.2 ⟨hx, hnodup⟩, (leaves_tasks tasks _).trans ?_⟩
          exact congrArg (· + 1) hleaves

end Move

end Search

/-! ## One question -/

namespace Plan

variable {t : Tracer} {ε τ : Type}

/-- An answer with the search after it, by the matches that were left before. -/
inductive Answers (p : Plan t ε τ) : Emission ε → Reply ε × Search τ → Prop
  | found {m : Match} {left : Search τ} (hleft : left.Balanced) (hstack : left.stack = m.via) :
      p.Answers (.one m ++ p.rest left) (.found m, left)
  | raised (fault : ε) : p.Answers (.fail fault) (.raised fault, .done)
  | ended : p.Answers .empty (.ended, .done)

theorem next_eq (p : Plan t ε τ) (s : Search τ) :
    p.next s =
      match p.move s with
      | .ended => (.ended, s)
      | .raised fault left => (.raised fault, left)
      | .found m left => (.found m, left)
      | .went left => p.next left := by
  rw [next]
  split <;> simp only [*]

theorem rest_eq (p : Plan t ε τ) (s : Search τ) :
    p.rest s =
      match p.move s with
      | .ended => .empty
      | .raised fault _ => .fail fault
      | .found m left => .one m ++ p.rest left
      | .went left => p.rest left := by
  rw [rest]
  split <;> simp only [*]

/-- A search answers with what is left of it. -/
theorem answers_next (p : Plan t ε τ) {s : Search τ} (h : s.Balanced) :
    p.Answers (p.rest s) (p.next s) := by
  induction s using p.wellFounded_goesOn.induction with
  | _ s ih =>
  have hkeeps := h.move p
  rw [next_eq, rest_eq]
  generalize hmove : p.move s = move at hkeeps ⊢
  cases move with
  | ended =>
    rw [show s = .done from hkeeps]
    exact .ended
  | raised fault left =>
    rw [show left = .done from hkeeps]
    exact .raised fault
  | found m left => exact .found hkeeps.1 hkeeps.2
  | went left => exact ih left (.inl hmove) hkeeps

theorem next_done (p : Plan t ε τ) : p.next .done = (.ended, .done) := by
  rw [next_eq]
  rfl

/-! ## Any number of requests -/

/-- The answers of a search to requests, and the search after them. -/
def serveAll (p : Plan t ε τ) (s : Search τ) : List Request → List (Reply ε) × Search τ
  | [] => ([], s)
  | request :: requests =>
    let (reply, left) := p.serve s request
    let (replies, last) := p.serveAll left requests
    (reply.toList ++ replies, last)

/-- A search at its end stays there. -/
theorem serveAll_done (p : Plan t ε τ) (requests : List Request) :
    p.serveAll .done requests = (List.replicate (requests.count .next) .ended, .done) := by
  induction requests with
  | nil => rfl
  | cons request requests ih =>
    cases request with
    | next =>
      rw [serveAll, serve, next_done]
      dsimp only
      rw [ih]
      simp [List.replicate_succ]
    | close =>
      rw [serveAll, serve, Search.balanced_done.close]
      dsimp only
      rw [ih]
      simp

end Plan

namespace Emission

variable {ε : Type}

/-- The answers with matches, and then the fault. -/
def script (e : Emission ε) : List (Reply ε) := e.found.map .found ++ e.fault.toList.map .raised

/-- The answers to a number of questions. -/
def replies (e : Emission ε) (asked : Nat) : List (Reply ε) :=
  e.script.take asked ++ List.replicate (asked - e.script.length) .ended

@[simp] theorem found_one_append (m : Match) (e : Emission ε) :
    (.one m ++ e : Emission ε).found = m :: e.found := rfl

@[simp] theorem replies_zero (e : Emission ε) : e.replies 0 = [] := by
  simp [replies]

@[simp] theorem replies_one_append (m : Match) (e : Emission ε) (asked : Nat) :
    (.one m ++ e : Emission ε).replies (asked + 1) = .found m :: e.replies asked := by
  simp [replies, script, one, append_def, append]

@[simp] theorem replies_fail (fault : ε) (asked : Nat) :
    (.fail fault : Emission ε).replies (asked + 1) = .raised fault :: List.replicate asked
      .ended := by
  simp [replies, script, fail]

@[simp] theorem replies_empty (asked : Nat) :
    (.empty : Emission ε).replies asked = List.replicate asked .ended := by
  simp [replies, script, empty]

end Emission

namespace Plan

variable {t : Tracer} {ε τ : Type} {s : Search τ}

theorem serveAll_next (p : Plan t ε τ) (s : Search τ) (requests : List Request) :
    p.serveAll s (.next :: requests) =
      ((p.next s).1 :: (p.serveAll (p.next s).2 requests).1,
        (p.serveAll (p.next s).2 requests).2) := rfl

theorem serveAll_close (p : Plan t ε τ) (s : Search τ) (requests : List Request) :
    p.serveAll s (.close :: requests) = p.serveAll s.close requests := rfl

theorem count_next (requests : List Request) :
    (requests.takeWhile (· = .next)).length + (requests.dropWhile (· = .next)).count .next
      = requests.count .next := by
  induction requests with
  | nil => rfl
  | cons request requests ih =>
    cases request with
    | next => simp [← ih]; omega
    | close => simp

/-- A search answers with what is left of it until it is given up, and then that it has ended. -/
theorem serveAll_replies (p : Plan t ε τ) (h : s.Balanced) (requests : List Request) :
    (p.serveAll s requests).1 = (p.rest s).replies (requests.takeWhile (· = .next)).length
      ++ List.replicate ((requests.dropWhile (· = .next)).count .next) .ended := by
  induction requests generalizing s with
  | nil => simp [serveAll]
  | cons request requests ih =>
    cases request with
    | close =>
      rw [serveAll_close, h.close, serveAll_done]
      simp
    | next =>
      have hans := p.answers_next h
      rw [serveAll_next]
      generalize p.next s = answer at hans ⊢
      generalize p.rest s = left at hans ⊢
      cases hans with
      | found hleft => simp [ih hleft]
      -- The search is at its end now and has the same answer to all other questions.
      | raised fault =>
        rw [serveAll_done, ← count_next]
        simp
      | ended =>
        rw [serveAll_done, ← count_next]
        simp [List.replicate_succ]

/-- Where a search is after some requests, if the given matches were left of it before: on a match,
with the variables that the match tells, or at its end. -/
structure Rests (lone : Emission ε) (requests : List Request) (last : Search τ) : Prop where
  balanced : last.Balanced
  at_end : .close ∈ requests ∨ lone.found.length < requests.length → last = .done
  at_match : ∀ {k m}, requests = List.replicate (k + 1) .next → lone.found[k]? = some m →
    last.stack = m.via

theorem rests_serveAll (p : Plan t ε τ) (h : s.Balanced) (requests : List Request) :
    Rests (p.rest s) requests (p.serveAll s requests).2 := by
  induction requests generalizing s with
  | nil => exact ⟨h, by simp, by simp⟩
  | cons request requests ih =>
    cases request with
    | close =>
      rw [serveAll_close, h.close, serveAll_done]
      exact ⟨Search.balanced_done, fun _ => rfl, by simp [List.replicate_succ]⟩
    | next =>
      have hans := p.answers_next h
      rw [serveAll_next]
      generalize p.next s = answer at hans ⊢
      generalize p.rest s = lone at hans ⊢
      cases hans with
      | @found m left hleft hstack =>
        have hlast := ih hleft
        refine ⟨hlast.balanced, ?_, ?_⟩
        · intro hend
          exact hlast.at_end (by simpa using hend)
        · intro k found hrequests hfound
          obtain rfl : requests = List.replicate k .next := (List.cons.inj hrequests).2
          cases k with
          | zero =>
            obtain rfl : m = found := Option.some.inj hfound
            exact hstack
          | succ k => exact hlast.at_match rfl hfound
      | raised | ended =>
        rw [serveAll_done]
        exact ⟨Search.balanced_done, fun _ => rfl, fun _ hfound => nomatch hfound⟩

end Plan

end ApiTrace
