import ApiTrace.Trace.Result
import ApiTrace.Trace.Search

/-!
# Tasks of the strategies

The strategies as searches. `Task` is what it takes to follow one value: `Task.act` makes one step
of the flow of values, and leaves what comes after it to other tasks. `Item` adds the roots at which
the strategies begin, and the modules that are seen through their default export. `Tracer.search` is
a strategy that has not begun.
-/

namespace ApiTrace

/-- The match for a use of a traced value, if there is something to report. -/
def Traced.match? {ι : Type} (v : Traced ι) (use : Use) (site : Site) (via : List VariableId) :
    Option Match :=
  (v.map.payload? use).map fun entry => ⟨site, v.path, use, entry, via⟩

/-! ### Following a value -/

/-- What there is to do to follow a value. -/
inductive Task (ι : Type) where
  /-- Reports a use. -/
  | report (v : Traced ι) (use : Use) (site : Site)
  /-- Follows a value up from the node at the bottom of `above`. -/
  | climb (above : List Frame) (v : Traced ι)
  /-- Follows a value into a pattern. -/
  | bind (above : List Frame) (v : Traced ι) (pattern : Node)
  /-- Follows a value into a property of a pattern. -/
  | unpack (property : Site) (v : Traced ι)
  /-- Follows the value of a property into the pattern of the property. -/
  | receive (property : Site) (w : Traced ι)
  /-- Follows the value of a variable to everywhere the variable is read. -/
  | enter (reportReads : Bool) (x : VariableId) (v : Traced ι)
  /-- Follows a module into one name that a declaration imports or exports. -/
  | specifier (site : Site) (v : Traced ι)
  /-- Follows a value into the variable that an import binds. -/
  | importBinding (binding : Node) (v : Traced ι)

namespace Task

variable {ι : Type}

/-- Follows a value into an optional pattern. -/
def bindOption (self : Site) (role : Role) (v : Traced ι) (pattern : Option Node) : List (Task ι) :=
  pattern.toList.map (.bind (self.frames ⟨role, 0⟩) v)

/-- Reports that a property is read and goes on with it, if the trace map knows it. -/
def withChild (v : Traced ι) (key : Text) (site : Site) (tasks : Traced ι → List (Task ι)) :
    List (Task ι) :=
  match v.child? key with
  | none => []
  | some w => .report w .read site :: tasks w

/-- The step up from a node to its parent. -/
def climbStep (t : Tracer) (frame : Frame) (above : List Frame) (v : Traced ι) :
    Action ConstantFault (Task ι) :=
  let parent : Site := ⟨frame.parent, above⟩
  match frame.parent.form with
  | .member .. =>
    if frame.slot.role = .object then
      .withValue (frame.parent.key? t.joins) fun key => withChild v key parent fun w =>
        [.climb above w]
    else .split []
  | .call .. => .split (if frame.slot.role = .callee then [.report v .call parent] else [])
  | .construct .. =>
    .split (if frame.slot.role = .callee then [.report v .construct parent] else [])
  | .assignment _ left _ =>
    .split (if frame.slot.role = .right then bindOption parent .left v left ++
      [.climb above v] else [])
  | .assignmentPattern left _ =>
    .split (if frame.slot.role = .right then bindOption parent .left v left else [])
  | .variableDeclarator target _ =>
    .split (if frame.slot.role = .init then bindOption parent .name v target else [])
  | form =>
    if isBoundary form.name then
      if form.name ∈ userNames then .raise .missingPart else .split []
    else .split [.climb above v]

/-- The step down into a pattern. -/
def bindStep (t : Tracer) (self : Site) (v : Traced ι) : Action ConstantFault (Task ι) :=
  match self.node.form with
  | .identifier name =>
    .split ((t.graph.findVariable? self.start name).toList.map (.enter false · v))
  | .objectPattern properties =>
    .split (properties.zipIdx.map fun (n, i) => .unpack (self.down ⟨.properties, i⟩ n) v)
  | .assignmentPattern left _ => .split (bindOption self .left v left)
  | .other name _ => if name ∈ receiverNames then .raise .missingPart else .split []
  | _ => .split []

/-- The step from a property of a pattern to the pattern of the property. -/
def receiveStep (property : Site) (w : Traced ι) : Action ConstantFault (Task ι) :=
  match property.node.form with
  | .property _ value .. | .method _ _ value .. | .field _ _ value _ =>
    .split (bindOption property .value w value)
  | _ => .raise .missingPart

/-- The step from a variable to the places where it is read. -/
def enterStep (t : Tracer) (reportReads : Bool) (x : VariableId) (v : Traced ι) :
    Action ConstantFault (Task ι) :=
  if x ∈ t.graph.variableIds then
    .follow x (((t.graph.referencesOf x).filter (·.mention.access.reads)).flatMap fun r =>
      (if reportReads then [.report v .read r.mention.identifier] else [])
        ++ [.climb r.mention.identifier.above v])
  else .split []

/-- The step from a module into one name that a declaration imports or exports. -/
def specifierStep (specifier : Site) (v : Traced ι) : Action ConstantFault (Task ι) :=
  match specifier.node.form with
  | .importSpecifier imported binding =>
    .withValue (Tracer.exportName? imported) fun key =>
      withChild v key specifier fun w => [.importBinding binding w]
  | .importDefault binding =>
    .split (withChild v TraceMap.defaultName specifier fun w => [.importBinding binding w])
  | .importNamespace binding => .split [.importBinding binding v]
  | .exportSpecifier binding _ =>
    .withValue (Tracer.exportName? binding) fun key => withChild v key specifier fun _ => []
  | _ => .split []

/-- The step from a value to the variable that an import binds. -/
def importStep (t : Tracer) (binding : Node) (v : Traced ι) : Action ConstantFault (Task ι) :=
  match binding.form.identifierName? with
  | none => .raise .missingPart
  | some name => .split ((t.graph.findVariable? binding.start name).toList.map (.enter false · v))

/-- What a task does. -/
def act (t : Tracer) : Task ι → Action ConstantFault (Task ι)
  | .report v use site => .report (v.match? use site)
  | .climb [] _ => .split []
  | .climb (frame :: above) v => climbStep t frame above v
  | .bind above v pattern => bindStep t ⟨pattern, above⟩ v
  | .unpack property v =>
    .withValue (property.node.form.key? t.joins) fun key =>
      withChild v key property fun w => [.receive property w]
  | .receive property w => receiveStep property w
  | .enter reportReads x v => enterStep t reportReads x v
  | .specifier site v => specifierStep site v
  | .importBinding binding v => importStep t binding v

end Task

/-! ### The roots of the strategies -/

/-- What there is to do in a strategy. -/
inductive Item (ι : Type) where
  /-- Fails, because there is no trace map. -/
  | fail (fault : Outline.Fault)
  | plain (task : Task ι)
  /-- Does a task in a CommonJS module that is seen through its default export. -/
  | throughDefault (task : Task (Option ι))
  /-- Begins at a mention of `require`. -/
  | require (m : TraceMap ι) (r : Reference)
  /-- Begins at a statement that may import or export from a module. -/
  | statement (m : TraceMap ι) (s : Site)

namespace Item

variable {ι : Type}

/-- The step from a mention of `require` to the module that it loads. -/
def requireStep (t : Tracer) (m : TraceMap ι) (r : Reference) : Action ConstantFault (Task ι) :=
  match r.mention.identifier.above with
  | [] => .split []
  | frame :: above =>
    if !r.mention.access.reads then .split []
    else match frame.parent.form with
      | .call _ arguments _ =>
        if frame.slot.role = .callee then
          .withValue (t.firstArgument? arguments) fun key =>
            Task.withChild ⟨[], m⟩ key ⟨frame.parent, above⟩ fun v => [.climb above v]
        else .split []
      | form =>
        if form.name = Text.ofString "CallExpression" then .raise .missingPart else .split []

/-- The tasks for the names that a declaration imports or exports from a module. -/
def specifiers {κ : Type} (declaration : Site) (v : Traced κ) : List (Task κ) :=
  (Tracer.specifiers declaration.node.form).zipIdx.map fun (n, i) =>
    .specifier (declaration.down ⟨.specifiers, i⟩ n) v

/-- The tasks for an export of everything that a module exports. -/
def exports (declaration : Site) (v : Traced ι) : List (Task ι) :=
  v.map.children.map fun (key, child) => .report ⟨v.path ++ [key], child⟩ .read declaration

/-- What there is to do for a declaration that names a module. -/
def declaration (mode : Mode) (declaration : Site) (v : Traced ι) : List (Item ι) :=
  .plain (.report v .read declaration) ::
    match declaration.node.form with
    | .exportAll .. => (exports declaration v).map .plain
    | _ =>
      if v.map.isEsm then (specifiers declaration v).map .plain
      else (specifiers declaration ⟨v.path, v.map.asDefaultExport (mode = .legacy)⟩).map
        .throughDefault

/-- What an item does. -/
def act (t : Tracer) (mode : Mode) : Item ι → Action TraceFault (Item ι)
  | .fail fault => .raise (.outline fault)
  | .plain task => (task.act t).map .folding some .plain
  | .throughDefault task => (task.act t).map .folding Tracer.exceptDefault .throughDefault
  | .require m r => (requireStep t m r).map .folding some .plain
  | .statement m s =>
    match Tracer.moduleRoot? m s with
    | .error fault => .raise (.folding fault)
    | .ok none => .split []
    | .ok (some v) => .split (declaration mode s v)

end Item

/-! ### Plans of the strategies -/

namespace Task

variable {ι : Type}

/-- How far a task is from being done, apart from the variables that it follows. -/
noncomputable def rank : Task ι → Nat
  | .report .. | .enter .. => 0
  | .importBinding .. => 1
  | .specifier .. => 2
  | .climb above _ => above.foldr (fun frame rank => 3 * sizeOf frame.parent + rank) 1
  | .bind _ _ pattern => 3 * sizeOf pattern
  | .unpack property _ => 3 * sizeOf property.node + 2
  | .receive property _ => 3 * sizeOf property.node + 1

theorem rank_bindOption {self : Site} {role : Role} {v : Traced ι} {pattern : Option Node}
    {b : Task ι} (hb : b ∈ bindOption self role v pattern) : b.rank < 3 * sizeOf pattern := by
  obtain ⟨n, hn, rfl⟩ := List.mem_map.1 hb
  rw [Option.mem_toList] at hn
  rw [Option.mem_def.1 hn]
  simp [rank]

theorem rank_withChild {v : Traced ι} {key : Text} {site : Site}
    {tasks : Traced ι → List (Task ι)} {n : Nat} (hn : 0 < n) (h : ∀ w, ∀ b ∈ tasks w, b.rank < n) :
    ∀ b ∈ withChild v key site tasks, b.rank < n := by
  unfold withChild
  split
  · exact fun b hb => nomatch hb
  · intro b hb
    rcases List.mem_cons.1 hb with rfl | hb
    · exact hn
    · exact h _ b hb

theorem rank_variable {x : Option VariableId} {v : Traced ι} {b : Task ι}
    (hb : b ∈ x.toList.map (.enter false · v)) : b.rank = 0 := by
  obtain ⟨x, -, rfl⟩ := List.mem_map.1 hb
  rfl

theorem rank_climb (frame : Frame) (above : List Frame) (v w : Traced ι) :
    (Task.climb (frame :: above) v).rank = 3 * sizeOf frame.parent + (Task.climb above w).rank := by
  simp [rank]

theorem climbStep_fits (t : Tracer) (frame : Frame) (above : List Frame) (v : Traced ι) :
    (climbStep t frame above v).Fits t rank (Task.climb (frame :: above) v).rank := by
  have hform := frame.parent.sizeOf_form_lt
  have hclimb (w : Traced ι) :
      (Task.climb above w).rank < (Task.climb (frame :: above) v).rank := by
    rw [rank_climb frame above v w]
    omega
  have hbind {self : Site} {role : Role} {pattern : Option Node} {b : Task ι}
      (hb : b ∈ bindOption self role v pattern)
      (hsize : sizeOf pattern < sizeOf frame.parent.form) :
      b.rank < (Task.climb (frame :: above) v).rank := by
    have hrank := rank_bindOption hb
    rw [rank_climb frame above v v]
    omega
  have hreport : 0 < (Task.climb (frame :: above) v).rank := Nat.zero_lt_of_lt (hclimb v)
  unfold climbStep
  dsimp only
  split
  · split
    · apply Action.Fits.withValue
      intro key
      apply rank_withChild hreport
      intro w b hb
      rw [List.mem_singleton.1 hb]
      exact hclimb w
    · exact .nil
  · exact .ite fun b hb => List.mem_singleton.1 hb ▸ hreport
  · exact .ite fun b hb => List.mem_singleton.1 hb ▸ hreport
  · next h =>
    apply Action.Fits.ite
    intro b hb
    rcases List.mem_append.1 hb with hb | hb
    · apply hbind hb
      rw [h]
      simp
      omega
    · rw [List.mem_singleton.1 hb]
      exact hclimb v
  · next h =>
    apply Action.Fits.ite
    intro b hb
    apply hbind hb
    rw [h]
    simp
    omega
  · next h =>
    apply Action.Fits.ite
    intro b hb
    apply hbind hb
    rw [h]
    simp
    omega
  · split
    · split
      · trivial
      · exact .nil
    · exact fun b hb => List.mem_singleton.1 hb ▸ hclimb v

theorem bindStep_fits (t : Tracer) (self : Site) (v : Traced ι) :
    (bindStep t self v).Fits t rank (Task.bind self.above v self.node).rank := by
  have hform := self.node.sizeOf_form_lt
  show (bindStep t self v).Fits t rank (3 * sizeOf self.node)
  unfold bindStep
  split
  · intro b hb
    rw [rank_variable hb]
    omega
  · next properties h =>
    intro b hb
    obtain ⟨⟨n, i⟩, hn, rfl⟩ := List.mem_map.1 hb
    have hsize : sizeOf n < sizeOf properties :=
      List.sizeOf_lt_of_mem (List.fst_mem_of_mem_zipIdx hn)
    rw [h] at hform
    show 3 * sizeOf n + 2 < 3 * sizeOf self.node
    simp at hform
    omega
  · next h =>
    intro b hb
    have hrank := rank_bindOption hb
    rw [h] at hform
    simp at hform
    omega
  · split
    · trivial
    · exact .nil
  · exact .nil

theorem receiveStep_fits (t : Tracer) (property : Site) (w : Traced ι) :
    (receiveStep property w).Fits t rank (Task.receive property w).rank := by
  have hform := property.node.sizeOf_form_lt
  unfold receiveStep
  split
  case h_4 => trivial
  all_goals
    next h =>
    intro b hb
    have hrank := rank_bindOption hb
    rw [h] at hform
    show b.rank < 3 * sizeOf property.node + 1
    simp at hform
    omega

theorem specifierStep_fits (t : Tracer) (site : Site) (v : Traced ι) :
    (specifierStep site v).Fits t rank (Task.specifier site v).rank := by
  have hchild (binding : Node) (key : Text) :
      ∀ b ∈ withChild v key site fun w => [.importBinding binding w], b.rank < 2 := by
    apply rank_withChild Nat.two_pos
    intro w b hb
    rw [List.mem_singleton.1 hb]
    exact Nat.one_lt_two
  unfold specifierStep
  split
  · exact Action.Fits.withValue (hchild _)
  · exact hchild _ _
  · intro b hb
    rw [List.mem_singleton.1 hb]
    exact Nat.one_lt_two
  · exact Action.Fits.withValue fun key => rank_withChild Nat.two_pos fun w b hb => nomatch hb
  · exact .nil

/-- A task is split into tasks of a lower rank. -/
theorem act_fits (t : Tracer) (a : Task ι) : (a.act t).Fits t rank a.rank := by
  cases a with
  | report v use site =>
    intro stack m hm
    obtain ⟨entry, -, rfl⟩ := Option.map_eq_some_iff.1 hm
    rfl
  | climb above v =>
    cases above with
    | nil => exact .nil
    | cons frame above => exact climbStep_fits t frame above v
  | bind above v pattern => exact bindStep_fits t ⟨pattern, above⟩ v
  | unpack property v =>
    apply Action.Fits.withValue
    intro key
    apply rank_withChild (Nat.succ_pos _)
    intro w b hb
    rw [List.mem_singleton.1 hb]
    exact Nat.lt_succ_self _
  | receive property w => exact receiveStep_fits t property w
  | enter reportReads x v =>
    show (enterStep t reportReads x v).Fits t rank 0
    unfold enterStep
    split
    · next hx => exact hx
    · exact .nil
  | specifier site v => exact specifierStep_fits t site v
  | importBinding binding v =>
    show (importStep t binding v).Fits t rank 1
    unfold importStep
    split
    · trivial
    · intro b hb
      rw [rank_variable hb]
      exact Nat.one_pos

end Task

namespace Item

variable {ι : Type}

/-- How far an item is from being done, apart from the variables that it follows. -/
noncomputable def rank : Item ι → Nat
  | .fail _ => 0
  | .plain task => task.rank
  | .throughDefault task => task.rank
  | .require m r => (Task.climb r.mention.identifier.above ⟨[], m⟩).rank
  | .statement .. => 3

theorem requireStep_fits (t : Tracer) (m : TraceMap ι) (r : Reference) :
    (requireStep t m r).Fits t Task.rank (Item.require m r).rank := by
  unfold requireStep
  split
  · exact .nil
  · next frame above h =>
    have hclimb (v : Traced ι) : (Task.climb above v).rank < (Item.require m r).rank := by
      show _ < (Task.climb r.mention.identifier.above ⟨[], m⟩).rank
      rw [h, Task.rank_climb frame above _ v]
      have := frame.parent.sizeOf_form_lt
      omega
    split
    · exact .nil
    · split
      · split
        · apply Action.Fits.withValue
          intro key
          apply Task.rank_withChild (Nat.zero_lt_of_lt (hclimb ⟨[], m⟩))
          exact fun v b hb => List.mem_singleton.1 hb ▸ hclimb v
        · exact .nil
      · split
        · trivial
        · exact .nil

theorem rank_declaration {mode : Mode} {site : Site} {v : Traced ι} {b : Item ι}
    (hb : b ∈ declaration mode site v) : b.rank < 3 := by
  have hspecifiers {κ : Type} {w : Traced κ} {c : Task κ} (hc : c ∈ specifiers site w) :
      c.rank = 2 := by
    obtain ⟨⟨n, i⟩, -, rfl⟩ := List.mem_map.1 hc
    rfl
  unfold declaration at hb
  rcases List.mem_cons.1 hb with rfl | hb
  · exact Nat.succ_pos 2
  split at hb
  · obtain ⟨c, hc, rfl⟩ := List.mem_map.1 hb
    obtain ⟨⟨key, child⟩, -, rfl⟩ := List.mem_map.1 hc
    exact Nat.succ_pos 2
  split at hb
  · obtain ⟨c, hc, rfl⟩ := List.mem_map.1 hb
    exact Nat.lt_of_le_of_lt (Nat.le_of_eq (hspecifiers hc)) (Nat.lt_succ_self 2)
  · obtain ⟨c, hc, rfl⟩ := List.mem_map.1 hb
    exact Nat.lt_of_le_of_lt (Nat.le_of_eq (hspecifiers hc)) (Nat.lt_succ_self 2)

theorem via_exceptDefault {m m' : Match} (h : Tracer.exceptDefault m = some m') :
    m'.via = m.via := by
  unfold Tracer.exceptDefault at h
  dsimp only at h
  split at h
  · cases h
  · rw [← Option.some.inj h]

/-- An item is split into items of a lower rank. -/
theorem act_fits (t : Tracer) (mode : Mode) (a : Item ι) : (a.act t mode).Fits t rank a.rank := by
  have hplain (b : Task ι) : (Item.plain b).rank = b.rank := rfl
  have hdefault (b : Task (Option ι)) : (Item.throughDefault b).rank = b.rank := rfl
  have hsome {m m' : Match} (h : some m = some m') : m'.via = m.via := by rw [Option.some.inj h]
  cases a with
  | fail => trivial
  | plain task => exact (task.act_fits t).map hplain hsome
  | throughDefault task => exact (task.act_fits t).map hdefault via_exceptDefault
  | require m r => exact (requireStep_fits t m r).map hplain hsome
  | statement m s =>
    unfold act
    dsimp only
    split
    · trivial
    · exact .nil
    · exact fun b hb => rank_declaration hb

end Item

namespace Tracer

variable {ι : Type}

/-- What the items of the strategies do. -/
def plan (t : Tracer) (mode : Mode) : Plan t TraceFault (Item ι) :=
  ⟨Item.act t mode, Item.rank, Item.act_fits t mode⟩

/-- The items with which a strategy begins. -/
def roots (t : Tracer) (names : List Text) (m : TraceMap ι) : Strategy → List (Item ι)
  | .globals =>
    (t.globalRoots m).map (fun (key, x, child) => .plain (.enter true x ⟨[key], child⟩))
      ++ (t.globalObjectRoots names).map fun (_, x) => .plain (.enter false x ⟨[], m⟩)
  | .cjs =>
    match t.graph.undeclared? requireName with
    | none => []
    | some x => (t.graph.referencesOf x).map (.require m)
  | .esm => t.statements.map (.statement m)

/-- A search by a strategy that has not begun. That there is no trace map is only seen when it
begins. -/
def search (t : Tracer) (names : List Text) (map : Except Outline.Fault (TraceMap ι))
    (s : Strategy) :
    Search (Item ι) :=
  match map with
  | .error fault => .ofTasks [.fail fault]
  | .ok m => .ofTasks (t.roots names m s)

end Tracer

end ApiTrace
