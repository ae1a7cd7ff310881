import ApiTrace.Trace.Flow

/-!
# Searches

A search gives its matches on demand. It works off an agenda of tasks, and it keeps the variables
that it is following on a stack: a task that follows a variable puts it on the stack, and what was
put there is taken off again when the tasks that follow the variable are done. A search that is
given up, or that ends in a fault, takes off what is on the stack before it ends.

What the tasks are is left open here: a `Plan` says what each of them does when its turn comes.
-/

namespace ApiTrace

/-! ### Plans -/

/-- What a task does when its turn comes. -/
inductive Action (ε τ : Type) where
  /-- It ends the search. -/
  | raise (fault : ε)
  /-- It gives a match or nothing; the match tells the variables that are being followed. -/
  | report (found : List VariableId → Option Match)
  /-- It is done by other tasks. -/
  | split (tasks : List τ)
  /-- It follows a variable by other tasks, unless the variable is being followed already. -/
  | follow (x : VariableId) (tasks : List τ)

namespace Action

variable {ε δ τ υ α : Type}

/-- Goes on with a value if there is one. -/
def withValue (value : Except ε (Option α)) (tasks : α → List τ) : Action ε τ :=
  match value with
  | .error fault => .raise fault
  | .ok none => .split []
  | .ok (some a) => .split (tasks a)

/-- The action of a task that stands for another one. Its matches are changed or left out. -/
def map (fault : ε → δ) (change : Match → Option Match) (task : τ → υ) : Action ε τ → Action δ υ
  | .raise f => .raise (fault f)
  | .report found => .report fun stack => (found stack).bind change
  | .split tasks => .split (tasks.map task)
  | .follow x tasks => .follow x (tasks.map task)

/-- What the action of a task of rank `n` may be: it gives a match that tells the right variables,
splits the task into tasks of a lower rank, or follows a variable of the program. -/
def Fits (t : Tracer) (rank : τ → Nat) (n : Nat) : Action ε τ → Prop
  | .raise _ => True
  | .report found => ∀ {stack m}, found stack = some m → m.via = stack
  | .split tasks => ∀ b ∈ tasks, rank b < n
  | .follow x _ => x ∈ t.graph.variableIds

namespace Fits

variable {t : Tracer} {rank : τ → Nat} {n : Nat}

theorem nil : (split [] : Action ε τ).Fits t rank n := fun _ hb => nomatch hb

theorem ite {c : Prop} [Decidable c] {tasks : List τ} (h : ∀ b ∈ tasks, rank b < n) :
    (split (if c then tasks else []) : Action ε τ).Fits t rank n := by
  split
  · exact h
  · exact nil

theorem withValue {value : Except ε (Option α)} {tasks : α → List τ}
    (h : ∀ a, ∀ b ∈ tasks a, rank b < n) : (Action.withValue value tasks).Fits t rank n := by
  unfold Action.withValue
  split
  · trivial
  · exact nil
  · exact h _

theorem map {action : Action ε τ} (h : action.Fits t rank n) {rank' : υ → Nat} {task : τ → υ}
    (hrank : ∀ b, rank' (task b) = rank b) {change : Match → Option Match}
    (hchange : ∀ {m m'}, change m = some m' → m'.via = m.via) {fault : ε → δ} :
    (action.map fault change task).Fits t rank' n := by
  cases action with
  | raise => trivial
  | report found =>
    intro stack m hm
    obtain ⟨m', hm', hm⟩ := Option.bind_eq_some_iff.1 hm
    rw [hchange hm, h hm']
  | split tasks =>
    intro b hb
    obtain ⟨c, hc, rfl⟩ := List.mem_map.1 hb
    rw [hrank]
    exact h c hc
  | follow x tasks => exact h

end Fits

end Action

/-- What each task does. No task can be split without end. -/
structure Plan (t : Tracer) (ε τ : Type) where
  act : τ → Action ε τ
  ranked : ∃ rank : τ → Nat, ∀ a, (act a).Fits t rank (rank a)

/-! ### Agendas -/

/-- An entry of an agenda. -/
inductive Entry (τ : Type) where
  | task (a : τ)
  /-- Takes the last variable off the stack. -/
  | leave

/-- A search: the variables that it is following, the last one first, and what is left to do. -/
structure Search (τ : Type) where
  stack : List VariableId
  agenda : List (Entry τ)

namespace Search

variable {ε τ : Type}

/-- A search that has not begun. -/
def ofTasks (tasks : List τ) : Search τ := ⟨[], tasks.map .task⟩

/-- The stack after everything that is left to do is dropped, except to take variables off it. -/
def unwind : List (Entry τ) → List VariableId → List VariableId
  | [], stack => stack
  | .task _ :: rest, stack => unwind rest stack
  | .leave :: rest, stack => unwind rest stack.tail

/-- Gives the search up. -/
def close (s : Search τ) : Search τ := ⟨unwind s.agenda s.stack, []⟩

/-- What comes of the first entry of an agenda. -/
inductive Move (ε τ : Type) where
  | ended
  | raised (fault : ε) (left : Search τ)
  | found (m : Match) (left : Search τ)
  | went (left : Search τ)

end Search

/-- The answer to a question for the next match. -/
inductive Reply (ε : Type) where
  | found (m : Match)
  | raised (fault : ε)
  | ended

namespace Plan

variable {t : Tracer} {ε τ : Type} (p : Plan t ε τ)

/-- Does the first entry of the agenda. -/
def move (s : Search τ) : Search.Move ε τ :=
  match s.agenda with
  | [] => .ended
  | .leave :: rest => .went ⟨s.stack.tail, rest⟩
  | .task a :: rest =>
    match p.act a with
    | .raise fault => .raised fault (Search.close ⟨s.stack, rest⟩)
    | .report found =>
      match found s.stack with
      | some m => .found m ⟨s.stack, rest⟩
      | none => .went ⟨s.stack, rest⟩
    | .split tasks => .went ⟨s.stack, tasks.map .task ++ rest⟩
    | .follow x tasks =>
      if x ∈ s.stack then .went ⟨s.stack, rest⟩
      else .went ⟨x :: s.stack, tasks.map .task ++ .leave :: rest⟩

/-! ### Every search ends -/

/-- The second search goes on as the first one. -/
def GoesOn (left s : Search τ) : Prop := p.move s = .went left ∨ ∃ m, p.move s = .found m left

section Ending

variable {p} {stack : List VariableId} {rest : List (Entry τ)}

theorem acc_leave (h : Acc p.GoesOn ⟨stack.tail, rest⟩) : Acc p.GoesOn ⟨stack, .leave :: rest⟩ := by
  constructor
  rintro left (h' | ⟨m, h'⟩) <;> cases h'
  exact h

/-- Tasks come to an end if each of them does. -/
theorem acc_tasks {tasks : List τ}
    (htask : ∀ a ∈ tasks, ∀ rest, Acc p.GoesOn ⟨stack, rest⟩ →
      Acc p.GoesOn ⟨stack, .task a :: rest⟩)
    (h : Acc p.GoesOn ⟨stack, rest⟩) : Acc p.GoesOn ⟨stack, tasks.map .task ++ rest⟩ := by
  induction tasks with
  | nil => exact h
  | cons a tasks ih =>
    apply htask a List.mem_cons_self
    exact ih fun b hb => htask b (List.mem_cons_of_mem a hb)

/-- A task comes to an end with the stack as it was before, so what comes after it is done with that
stack. -/
theorem acc_task (p : Plan t ε τ) (stack : List VariableId) (a : τ) (rest : List (Entry τ))
    (h : Acc p.GoesOn ⟨stack, rest⟩) : Acc p.GoesOn ⟨stack, .task a :: rest⟩ := by
  obtain ⟨rank, hfits⟩ := p.ranked
  -- A task that is split leads to tasks of a lower rank, and one that follows a variable leaves
  -- fewer variables to follow.
  induction hn : (t.closed stack).length using Nat.strongRecOn generalizing stack a rest with
  | _ n ihstack =>
  induction hr : rank a using Nat.strongRecOn generalizing a rest with
  | _ r ihrank =>
  have hfit := hfits a
  constructor
  intro left hleft
  unfold GoesOn move at hleft
  dsimp only at hleft
  split at hleft
  · rcases hleft with hleft | ⟨m, hleft⟩ <;> cases hleft
  · split at hleft <;> rcases hleft with hleft | ⟨m, hleft⟩ <;> cases hleft <;> exact h
  · next tasks hact =>
    rcases hleft with hleft | ⟨m, hleft⟩ <;> cases hleft
    apply acc_tasks _ h
    intro b hb rest hrest
    rw [hact, hr] at hfit
    exact ihrank (rank b) (hfit b hb) b rest hrest rfl
  · next x tasks hact =>
    split at hleft
    · rcases hleft with hleft | ⟨m, hleft⟩ <;> cases hleft
      exact h
    · next hx =>
      rcases hleft with hleft | ⟨m, hleft⟩ <;> cases hleft
      apply acc_tasks _ (acc_leave h)
      intro b _ rest hrest
      rw [hact] at hfit
      exact ihstack _ (hn ▸ Tracer.closed_length_lt hfit hx) (x :: stack) b rest hrest rfl

/-- Every search comes to an end. -/
theorem wellFounded_goesOn (p : Plan t ε τ) : WellFounded p.GoesOn := by
  constructor
  rintro ⟨stack, agenda⟩
  induction agenda generalizing stack with
  | nil =>
    constructor
    rintro left (h | ⟨m, h⟩) <;> cases h
  | cons entry rest ih =>
    cases entry with
    | task a => exact acc_task p stack a rest (ih stack)
    | leave => exact acc_leave (ih stack.tail)

end Ending

/-- A search on its way by a plan. -/
structure Running (p : Plan t ε τ) where
  search : Search τ

instance (p : Plan t ε τ) : WellFoundedRelation p.Running where
  rel left s := p.GoesOn left.search s.search
  wf := InvImage.wf Running.search p.wellFounded_goesOn

/-! ### Questions -/

/-- Goes on to the next match. -/
def next (p : Plan t ε τ) (s : Search τ) : Reply ε × Search τ :=
  match _h : p.move s with
  | .ended => (.ended, s)
  | .raised fault left => (.raised fault, left)
  | .found m left => (.found m, left)
  | .went left => p.next left
termination_by (⟨s⟩ : p.Running)
decreasing_by exact .inl ‹_›

/-- All matches that are left. -/
def rest (p : Plan t ε τ) (s : Search τ) : Emission ε :=
  match _h : p.move s with
  | .ended => .empty
  | .raised fault _ => .fail fault
  | .found m left => .one m ++ p.rest left
  | .went left => p.rest left
termination_by (⟨s⟩ : p.Running)
decreasing_by
  · exact .inr ⟨m, ‹_›⟩
  · exact .inl ‹_›

end Plan

end ApiTrace
