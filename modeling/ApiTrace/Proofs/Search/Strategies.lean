import ApiTrace.Proofs.Flow.Enumeration
import ApiTrace.Proofs.Search.Stack
import ApiTrace.Trace.Task

/-!
# Searches give the matches of their strategies

A task gives the matches that the flow of values gives from there on (`Plan.Embeds.gives_enter`,
`Plan.Embeds.gives_climb`), so what is left of a search that has not begun is what its strategy
finds (`Tracer.rest_search`).
-/

namespace ApiTrace

/-! ## Matches that are passed on -/

namespace Emission

variable {ε δ α : Type}

/-- The matches as a search passes them on: changed or left out, with a fault of its own. -/
def pass (fault : ε → δ) (change : Match → Option Match) (e : Emission ε) : Emission δ :=
  (e.filterMap change).mapFault fault

variable {fault : ε → δ} {change : Match → Option Match}

theorem pass_append (a b : Emission ε) :
    (a ++ b).pass fault change = a.pass fault change ++ b.pass fault change := by
  obtain ⟨found, f⟩ := a
  cases f with
  | none => simp [pass, filterMap, mapFault, append_def, append]
  | some f => simp [pass, filterMap, mapFault, append_def, append]

theorem pass_concatMap (f : α → Emission ε) (l : List α) :
    (concatMap f l).pass fault change = concatMap (fun a => (f a).pass fault change) l := by
  induction l with
  | nil => rfl
  | cons a l ih => rw [concatMap, pass_append, ih, concatMap]

theorem pass_elim (m : Option Match) :
    (m.elim .empty .one : Emission ε).pass fault change = (m.bind change).elim .empty .one := by
  cases m with
  | none => rfl
  | some m => cases h : change m <;> simp [pass, filterMap, mapFault, one, empty, h]

theorem pass_some (e : Emission ε) : e.pass fault some = e.mapFault fault := by
  simp [pass, filterMap]

theorem pass_filterMap (e : Emission ε) :
    (e.filterMap change).pass fault some = e.pass fault change := by
  simp [pass, filterMap]

end Emission

theorem Traced.report_eq {ι ε : Type} (v : Traced ι) (use : Use) (site : Site)
    (via : List VariableId) :
    (v.report use site via : Emission ε) = (v.match? use site via).elim .empty .one := by
  unfold report match?
  cases v.map.payload? use <;> rfl

/-! ## What tasks give -/

namespace Plan

variable {t : Tracer} {ε τ : Type}

/-- Tasks give some matches and leave the stack as it is. -/
def Does (p : Plan t ε τ) (stack : List VariableId) (tasks : List τ) (e : Emission ε) : Prop :=
  ∀ rest, p.rest ⟨stack, tasks.map .task ++ rest⟩ = e ++ p.rest ⟨stack, rest⟩

namespace Does

variable {p : Plan t ε τ} {stack : List VariableId} {tasks tasks' : List τ}
    {e e' : Emission ε} {a : τ}

theorem nil : p.Does stack [] .empty := fun _ => (Emission.empty_append _).symm

theorem append (h : p.Does stack tasks e) (h' : p.Does stack tasks' e') :
    p.Does stack (tasks ++ tasks') (e ++ e') := by
  intro rest
  rw [List.map_append, List.append_assoc, h, h', Emission.append_assoc]

theorem flatMap {α : Type} {f : α → Emission ε} {g : α → List τ} {l : List α}
    (h : ∀ x ∈ l, p.Does stack (g x) (f x)) : p.Does stack (l.flatMap g) (.concatMap f l) := by
  induction l with
  | nil => exact nil
  | cons x l ih =>
    obtain ⟨hx, hl⟩ := List.forall_mem_cons.1 h
    exact hx.append (ih hl)

theorem map {α : Type} {f : α → Emission ε} {g : α → τ} {l : List α}
    (h : ∀ x ∈ l, p.Does stack [g x] (f x)) : p.Does stack (l.map g) (.concatMap f l) := by
  rw [List.map_eq_flatMap]
  exact flatMap h

theorem raise {fault : ε} (hact : p.act a = .raise fault) : p.Does stack [a] (.fail fault) := by
  intro rest
  rw [rest_eq, Emission.fail_append]
  simp [move, hact]

theorem report {found : List VariableId → Option Match} (hact : p.act a = .report found) :
    p.Does stack [a] ((found stack).elim .empty .one) := by
  intro rest
  rw [rest_eq]
  cases h : found stack <;> simp [move, hact, h]

theorem split (hact : p.act a = .split tasks) (h : p.Does stack tasks e) : p.Does stack [a] e := by
  intro rest
  rw [rest_eq, ← h rest]
  simp [move, hact]

/-- A variable that is being followed is not followed again. -/
theorem follow_of_mem {x : VariableId} (hact : p.act a = .follow x tasks) (hx : x ∈ stack) :
    p.Does stack [a] .empty := by
  intro rest
  rw [rest_eq]
  simp [move, hact, hx]

/-- While a variable is followed it is on the stack, and it is taken off again. -/
theorem follow {x : VariableId} (hact : p.act a = .follow x tasks) (hx : x ∉ stack)
    (h : p.Does (x :: stack) tasks e) : p.Does stack [a] e := by
  intro rest
  have hleave : p.rest ⟨x :: stack, .leave :: rest⟩ = p.rest ⟨stack, rest⟩ := by rw [rest_eq]; rfl
  rw [rest_eq, ← hleave, ← h]
  simp [move, hact, hx]

end Does

/-! ## Following a value -/

/-- A plan among whose tasks are those that follow values. -/
structure Embeds {ι : Type} (p : Plan t ε τ) (task : Task ι → τ) (fault : ConstantFault → ε)
    (change : Match → Option Match) : Prop where
  act_task : ∀ a, p.act (task a) = (a.act t).map fault change task

namespace Embeds

variable {ι : Type} {p : Plan t ε τ} {task : Task ι → τ} {fault : ConstantFault → ε}
  {change : Match → Option Match} {stack : List VariableId} {v w : Traced ι} {a : Task ι}
  {tasks : List (Task ι)} {e e' : Emission ConstantFault}

/-- Tasks of a plan give some matches, as the plan passes them on. -/
def Gives (_ : p.Embeds task fault change) (stack : List VariableId) (tasks : List (Task ι))
    (e : Emission ConstantFault) : Prop :=
  p.Does stack (tasks.map task) (e.pass fault change)

variable {h : p.Embeds task fault change}

theorem gives_nil (h : p.Embeds task fault change) : h.Gives stack [] .empty := Does.nil

theorem Gives.append (hfirst : h.Gives stack tasks e) {tasks' : List (Task ι)}
    (hrest : h.Gives stack tasks' e') : h.Gives stack (tasks ++ tasks') (e ++ e') := by
  unfold Gives
  rw [List.map_append, Emission.pass_append]
  exact Does.append hfirst hrest

theorem Gives.cons (hfirst : h.Gives stack [a] e) (hrest : h.Gives stack tasks e') :
    h.Gives stack (a :: tasks) (e ++ e') :=
  hfirst.append hrest

theorem Gives.flatMap {α : Type} {f : α → Emission ConstantFault} {g : α → List (Task ι)}
    {l : List α} (hall : ∀ x ∈ l, h.Gives stack (g x) (f x)) :
    h.Gives stack (l.flatMap g) (.concatMap f l) := by
  unfold Gives
  rw [List.map_flatMap, Emission.pass_concatMap]
  exact Does.flatMap hall

theorem Gives.map {α : Type} {f : α → Emission ConstantFault} {g : α → Task ι} {l : List α}
    (hall : ∀ x ∈ l, h.Gives stack [g x] (f x)) : h.Gives stack (l.map g) (.concatMap f l) := by
  rw [List.map_eq_flatMap]
  exact .flatMap hall

/-- Whatever does an action in the plan gives some matches, as the plan passes them on. -/
def Acts (_ : p.Embeds task fault change) (stack : List VariableId)
    (action : Action ConstantFault (Task ι)) (e : Emission ConstantFault) : Prop :=
  ∀ b, p.act b = action.map fault change task → p.Does stack [b] (e.pass fault change)

theorem Acts.gives (hacts : h.Acts stack (a.act t) e) : h.Gives stack [a] e :=
  hacts (task a) (h.act_task a)

theorem Acts.raise (f : ConstantFault) : h.Acts stack (.raise f) (.fail f) :=
  fun _ hact => Does.raise hact

theorem Acts.split (htasks : h.Gives stack tasks e) : h.Acts stack (.split tasks) e :=
  fun _ hact => Does.split hact htasks

theorem Acts.nil : h.Acts stack (.split []) .empty := .split h.gives_nil

theorem Acts.follow_of_mem {x : VariableId} (hx : x ∈ stack) :
    h.Acts stack (.follow x tasks) .empty :=
  fun _ hact => Does.follow_of_mem hact hx

theorem Acts.follow {x : VariableId} (hx : x ∉ stack) (htasks : h.Gives (x :: stack) tasks e) :
    h.Acts stack (.follow x tasks) e :=
  fun _ hact => Does.follow hact hx htasks

theorem Acts.withValue {α : Type} {value : Except ConstantFault (Option α)}
    {f : α → Emission ConstantFault} {g : α → List (Task ι)}
    (hvalue : ∀ x, h.Gives stack (g x) (f x)) :
    h.Acts stack (.withValue value g) (.withValue value f) := by
  unfold Action.withValue Emission.withValue
  split
  · exact .raise _
  · exact .nil
  · exact .split (hvalue _)

theorem Acts.ite {c : Prop} [Decidable c] {action action' : Action ConstantFault (Task ι)}
    (hpos : h.Acts stack action e) (hneg : h.Acts stack action' e') :
    h.Acts stack (if c then action else action') (if c then e else e') := by
  split
  · exact hpos
  · exact hneg

theorem Gives.ite {c : Prop} [Decidable c] (htasks : h.Gives stack tasks e) :
    h.Gives stack (if c then tasks else []) (if c then e else .empty) := by
  split
  · exact htasks
  · exact h.gives_nil

theorem gives_report (h : p.Embeds task fault change) (v : Traced ι) (use : Use) (site : Site) :
    h.Gives stack [.report v use site] (v.report use site stack) := by
  unfold Gives
  rw [v.report_eq, Emission.pass_elim]
  apply Does.report
  rw [h.act_task]
  rfl

theorem Gives.withChild {key : Text} {site : Site} {f : Traced ι → Emission ConstantFault}
    {g : Traced ι → List (Task ι)} (hchild : ∀ w, h.Gives stack (g w) (f w)) :
    h.Gives stack (Task.withChild v key site g)
      (match v.child? key with
      | none => .empty
      | some w => w.report .read site stack ++ f w) := by
  unfold Task.withChild
  cases v.child? key with
  | none => exact h.gives_nil
  | some w => exact (h.gives_report w .read site).cons (hchild w)

/-! ## Patterns -/

section Pattern

variable (henter : ∀ x v, h.Gives stack [.enter false x v] (t.enter stack false x v))

theorem gives_bindOption {self : Site} {role : Role} {pattern : Option Node}
    (hbind : ∀ n ∈ pattern, ∀ above v,
      h.Gives stack [.bind above v n] (Tracer.bind t stack (t.enter stack false) above v n)) :
    h.Gives stack (Task.bindOption self role v pattern)
      (Tracer.bindOption t stack (t.enter stack false) self role v pattern) := by
  cases pattern with
  | none =>
    rw [Tracer.bindOption]
    exact h.gives_nil
  | some n =>
    rw [Tracer.bindOption]
    exact hbind n rfl _ v

theorem gives_receive {property : Site}
    (hbind : ∀ n, property.node.form.propertyValue? = some (some n) → ∀ above v,
      h.Gives stack [.bind above v n] (Tracer.bind t stack (t.enter stack false) above v n)) :
    h.Gives stack [.receive property w]
      (Tracer.bindValue t stack (t.enter stack false) property w property.node.form) := by
  apply Acts.gives
  show h.Acts stack (Task.receiveStep property w) _
  have hvalue (value : Option Node) (hform : property.node.form.propertyValue? = some value) :
      h.Gives stack (Task.bindOption property .value w value)
        (Tracer.bindOption t stack (t.enter stack false) property .value w value) := by
    apply gives_bindOption
    rintro n rfl
    exact hbind n hform
  unfold Task.receiveStep
  cases hform : property.node.form with
  | property key value => exact .split (hvalue value (by rw [hform]; rfl))
  | method key computed value => exact .split (hvalue value (by rw [hform]; rfl))
  | field key computed value => exact .split (hvalue value (by rw [hform]; rfl))
  | _ => exact .raise .missingPart

theorem gives_unpack {self : Site} {j : Nat} {n : Node}
    (hbind : ∀ value, n.form.propertyValue? = some (some value) → ∀ above v,
      h.Gives stack [.bind above v value]
          (Tracer.bind t stack (t.enter stack false) above v value)) :
    h.Gives stack [.unpack (self.down ⟨.properties, j⟩ n) v]
      (Tracer.propertyOutcome t stack (t.enter stack false) self v j n) := by
  apply Acts.gives
  apply Acts.withValue
  intro key
  apply Gives.withChild
  intro w
  exact gives_receive hbind

theorem gives_properties {self : Site} {properties : List Node}
    (hbind : ∀ n ∈ properties, ∀ value, n.form.propertyValue? = some (some value) → ∀ above v,
      h.Gives stack [.bind above v value] (Tracer.bind t stack (t.enter stack false) above v value))
    (j : Nat) :
    h.Gives stack ((properties.zipIdx j).map fun (n, j) => .unpack (self.down ⟨.properties, j⟩ n) v)
      (Tracer.bindProperties t stack (t.enter stack false) self v j properties) := by
  induction properties generalizing j with
  | nil =>
    rw [Tracer.bindProperties]
    exact h.gives_nil
  | cons n properties ih =>
    obtain ⟨hn, hproperties⟩ := List.forall_mem_cons.1 hbind
    rw [Tracer.bindProperties_cons]
    exact (gives_unpack hn).cons (ih hproperties (j + 1))

include henter

theorem gives_variable (x : Option VariableId) :
    h.Gives stack (x.toList.map (.enter false · v))
      (match x with
      | some x => t.enter stack false x v
      | none => .empty) := by
  cases x with
  | none => exact h.gives_nil
  | some x => exact henter x v

/-- Binding gives the matches of the variables that receive the value or its properties. -/
theorem gives_bind (n : Node) (above : List Frame) (v : Traced ι) :
    h.Gives stack [.bind above v n] (Tracer.bind t stack (t.enter stack false) above v n) := by
  -- The patterns inside are smaller, those in the properties of an object pattern by two levels.
  induction hs : sizeOf n using Nat.strongRecOn generalizing n above v with
  | _ size ih =>
  obtain ⟨span, form⟩ := n
  rw [Tracer.bind]
  apply Acts.gives
  cases form with
  | identifier name =>
    rw [Tracer.bindForm]
    exact .split (gives_variable henter _)
  | objectPattern properties =>
    rw [Tracer.bindForm]
    apply Acts.split
    apply gives_properties
    intro n hn value hvalue above v
    have hvalue := Tracer.sizeOf_propertyValue_lt hvalue
    have hn := List.sizeOf_lt_of_mem hn
    simp at hs
    exact ih (sizeOf value) (by omega) value above v rfl
  | assignmentPattern left right =>
    rw [Tracer.bindForm]
    apply Acts.split
    apply gives_bindOption
    rintro n rfl above v
    simp at hs
    exact ih (sizeOf n) (by omega) n above v rfl
  | other name children =>
    rw [Tracer.bindForm]
    exact .ite (.raise .missingPart) .nil
  | _ => exact .nil

end Pattern

/-! ## Expressions and variables -/

/-- Climbing gives the matches of the expressions that use the value. -/
theorem gives_climb (henter : ∀ x v, h.Gives stack [.enter false x v] (t.enter stack false x v))
    (above : List Frame) (v : Traced ι) :
    h.Gives stack [.climb above v] (t.climb stack (t.enter stack false) above v) := by
  induction above generalizing v with
  | nil =>
    rw [Tracer.climb]
    exact Acts.nil.gives
  | cons frame above ih =>
    have hbind (self : Site) (role : Role) (pattern : Option Node) :
        h.Gives stack (Task.bindOption self role v pattern)
          (Tracer.bindOption t stack (t.enter stack false) self role v pattern) :=
      gives_bindOption fun n _ above v => gives_bind henter n above v
    apply Acts.gives
    show h.Acts stack (Task.climbStep t frame above v) _
    unfold Task.climbStep
    rw [Tracer.climb]
    cases frame.parent.form with
    | member => exact .ite (.withValue fun key => .withChild ih) .nil
    | call => exact .split (.ite (h.gives_report v .call _))
    | construct => exact .split (.ite (h.gives_report v .construct _))
    | assignment operator left right => exact .split (.ite ((hbind _ .left left).append (ih v)))
    | assignmentPattern left right => exact .split (.ite (hbind _ .left left))
    | variableDeclarator target init => exact .split (.ite (hbind _ .name target))
    | _ => exact .ite (.ite (.raise .missingPart) .nil) (.split (ih v))

/-- Entering a variable gives the matches of everywhere the variable is read. -/
theorem gives_enter (h : p.Embeds task fault change) (stack : List VariableId) (reportReads : Bool)
    (x : VariableId) (v : Traced ι) :
    h.Gives stack [.enter reportReads x v] (t.enter stack reportReads x v) := by
  -- While the variable is followed, fewer variables are left to follow.
  induction hn : (t.closed stack).length using Nat.strongRecOn
    generalizing stack reportReads x v with
  | _ n ih =>
  apply Acts.gives
  show h.Acts stack (Task.enterStep t reportReads x v) _
  unfold Task.enterStep
  rw [Tracer.enter]
  by_cases hx : x ∈ t.graph.variableIds
  · rw [if_pos hx]
    by_cases hstack : x ∈ stack
    · rw [dif_neg fun hopen => hopen.2 hstack]
      exact .follow_of_mem hstack
    · rw [dif_pos ⟨hx, hstack⟩]
      have hless := hn ▸ Tracer.closed_length_lt hx hstack
      apply Acts.follow hstack
      apply Gives.flatMap
      intro r _
      apply Gives.append
      · exact .ite (h.gives_report v .read _)
      · apply gives_climb
        intro y w
        exact ih _ hless (x :: stack) false y w rfl
  · rw [if_neg hx, dif_neg fun hopen => hx hopen.1]
    exact .nil

/-! ## Imports and exports -/

theorem gives_importBinding (binding : Node) (v : Traced ι) :
    h.Gives [] [.importBinding binding v] (t.importBinding binding v) := by
  apply Acts.gives
  show h.Acts [] (Task.importStep t binding v) _
  unfold Task.importStep Tracer.importBinding
  cases binding.form.identifierName? with
  | none => exact .raise .missingPart
  | some name => exact .split (gives_variable (h.gives_enter [] false) _)

theorem gives_specifier (site : Site) (v : Traced ι) :
    h.Gives [] [.specifier site v] (t.specifierMatches site v) := by
  apply Acts.gives
  show h.Acts [] (Task.specifierStep site v) _
  unfold Task.specifierStep Tracer.specifierMatches
  cases site.node.form with
  | importSpecifier imported binding =>
    exact .withValue fun key => .withChild fun w => gives_importBinding binding w
  | importDefault binding => exact .split (.withChild fun w => gives_importBinding binding w)
  | importNamespace binding => exact .split (gives_importBinding binding v)
  | exportSpecifier binding exported =>
    apply Acts.withValue
    intro key
    unfold Task.withChild
    cases v.child? key with
    | none => exact h.gives_nil
    | some w => exact h.gives_report w .read site
  | _ => exact .nil

theorem gives_specifiers (declaration : Site) (v : Traced ι) :
    h.Gives [] (Item.specifiers declaration v) (t.specifiersMatches declaration v) :=
  .map fun _ _ => gives_specifier _ v

theorem acts_require (m : TraceMap ι) (r : Reference) :
    h.Acts [] (Item.requireStep t m r) (t.requireMatches m r) := by
  unfold Item.requireStep Tracer.requireMatches
  cases r.mention.identifier.above with
  | nil => exact .nil
  | cons frame above =>
    apply Acts.ite .nil
    cases frame.parent.form with
    | call =>
      exact .ite (.withValue fun key => .withChild fun v => gives_climb (h.gives_enter [] false)
        above v) .nil
    | _ => exact .ite (.raise .missingPart) .nil

end Embeds

end Plan

/-! ## Strategies -/

namespace Tracer

variable {ι : Type} {t : Tracer} {mode : Mode}

theorem embeds_plain (t : Tracer) (mode : Mode) :
    (t.plan mode : Plan t TraceFault (Item ι)).Embeds .plain .folding some :=
  ⟨fun _ => rfl⟩

theorem embeds_throughDefault (t : Tracer) (mode : Mode) :
    (t.plan mode : Plan t TraceFault (Item ι)).Embeds .throughDefault .folding exceptDefault :=
  ⟨fun _ => rfl⟩

/-- What a strategy finds. -/
def loneMatches (t : Tracer) (mode : Mode) (names : List Text)
    (map : Except Outline.Fault (TraceMap ι)) (s : Strategy) : Emission TraceFault :=
  match map with
  | .error fault => .fail (.outline fault)
  | .ok m => (t.strategyMatches mode names m s).mapFault .folding

theorem does_declaration (site : Site) (v : Traced ι) :
    (t.plan mode).Does [] (Item.declaration mode site v)
      ((t.declarationMatches mode site v).mapFault .folding) := by
  have hplain := embeds_plain (ι := ι) t mode
  have hdefault := embeds_throughDefault (ι := ι) t mode
  unfold Item.declaration declarationMatches
  rw [← Emission.pass_some, Emission.pass_append]
  apply Plan.Does.append (hplain.gives_report v .read site)
  have hspecifiers : (t.plan mode).Does []
      (if v.map.isEsm then (Item.specifiers site v).map .plain
        else (Item.specifiers site ⟨v.path, v.map.asDefaultExport (mode = .legacy)⟩).map
          .throughDefault)
      (Emission.pass .folding some (if v.map.isEsm then t.specifiersMatches site v
        else (t.specifiersMatches site
          ⟨v.path, v.map.asDefaultExport (mode = .legacy)⟩).filterMap exceptDefault)) := by
    split
    · exact hplain.gives_specifiers site v
    · rw [Emission.pass_filterMap]
      exact hdefault.gives_specifiers site _
  cases site.node.form with
  | exportAll => exact Plan.Embeds.Gives.map fun _ _ => hplain.gives_report _ .read site
  | _ => exact hspecifiers

theorem act_statement (m : TraceMap ι) (s : Site) : (t.plan mode).act (.statement m s) =
    match moduleRoot? m s with
    | .error fault => .raise (.folding fault)
    | .ok none => .split []
    | .ok (some v) => .split (Item.declaration mode s v) := rfl

theorem does_statement (m : TraceMap ι) (s : Site) :
    (t.plan mode).Does [] [.statement m s]
      ((Emission.withValue (moduleRoot? m s) (t.declarationMatches mode s)).mapFault .folding) := by
  have hact : (t.plan mode).act (.statement m s) = _ := act_statement m s
  cases hroot : moduleRoot? m s with
  | error fault =>
    rw [hroot] at hact
    exact .raise hact
  | ok v =>
    rw [hroot] at hact
    cases v with
    | none => exact .split hact .nil
    | some v => exact .split hact (does_declaration s v)

/-- The roots of a strategy give what the strategy finds. -/
theorem does_roots (names : List Text) (m : TraceMap ι) (s : Strategy) :
    (t.plan mode).Does [] (t.roots names m s)
    ((t.strategyMatches mode names m s).mapFault .folding) := by
  have hplain := embeds_plain (ι := ι) t mode
  rw [← Emission.pass_some]
  cases s with
  | globals =>
    show (t.plan mode).Does [] _ ((t.globalMatches names m).pass .folding some)
    rw [globalMatches, Emission.pass_append, Emission.pass_concatMap, Emission.pass_concatMap]
    apply Plan.Does.append
    · exact .map fun p _ => hplain.gives_enter [] true p.2.1 ⟨[p.1], p.2.2⟩
    · exact .map fun p _ => hplain.gives_enter [] false p.2 ⟨[], m⟩
  | cjs =>
    show (t.plan mode).Does [] (t.roots names m .cjs) ((t.cjsMatches m).pass .folding some)
    unfold roots cjsMatches
    cases t.graph.undeclared? requireName with
    | none => exact .nil
    | some x =>
      dsimp only
      rw [Emission.pass_concatMap]
      exact .map fun r _ => hplain.acts_require m r _ rfl
  | esm =>
    show (t.plan mode).Does [] _ ((t.esmMatches mode m).pass .folding some)
    rw [esmMatches, Emission.pass_concatMap]
    apply Plan.Does.map
    intro s _
    rw [Emission.pass_some]
    exact does_statement m s

/-- What is left of a search that has not begun is what its strategy finds. -/
theorem rest_search (t : Tracer) (mode : Mode) (names : List Text)
    (map : Except Outline.Fault (TraceMap ι)) (s : Strategy) :
    (t.plan mode).rest (t.search names map s) = t.loneMatches mode names map s := by
  have hbegin {tasks : List (Item ι)} {e : Emission TraceFault}
    (h : (t.plan mode).Does [] tasks e) :
      (t.plan mode).rest (.ofTasks tasks) = e := by
    have hrest := h []
    rw [List.append_nil] at hrest
    rw [Search.ofTasks, hrest, Plan.rest_eq]
    exact Emission.append_empty e
  cases map with
  | error fault => exact hbegin (.raise rfl)
  | ok m => exact hbegin (does_roots names m s)

end Tracer

end ApiTrace
