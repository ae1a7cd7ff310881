import ApiTrace.Proofs.Constant.Failure
import ApiTrace.Proofs.Flow.Stops
import ApiTrace.Proofs.Reading.Scopes

/-!
# Places that end a search

A value that is followed stays in the code of its program, and it comes to a fault at few kinds of
places (`Site.Trips`): where the key of a property cannot be asked for, and where a node has the
name of an expression or of a pattern and not its parts. A call of `require` and a declaration that
names a module have such places of their own. So a program without any of them is searched to
the end.
-/

namespace ApiTrace

/-! ## Places in code -/

section Code

variable {program : Node} {s p : Site}

theorem Site.parent_of_mem_code (hs : s ∈ (Site.root program).code) (hp : s.parent? = some p) :
    p ∈ (Site.root program).code ∧ s ∈ p.children := by
  obtain ⟨hwalk, hcode⟩ := List.mem_filter.1 hs
  rcases Site.parent_of_mem_walk hwalk hp with rfl | ⟨hparent, hchild⟩
  · cases hp
  · refine ⟨List.mem_filter.2 ⟨hparent, ?_⟩, hchild⟩
    obtain ⟨⟨slot, n⟩, -, rfl⟩ := List.mem_map.1 hchild
    exact isCode_of_suffix (List.suffix_cons _ _) hcode

theorem Site.down_mem_code {f : Form} {slot : Slot} {n : Node} (hs : s ∈ (Site.root program).code)
    (hf : s.node.form = f) (hn : (slot, n) ∈ f.children)
    (hholds : ∀ span above, Site.holdsCode ⟨.mk span f, above⟩ slot.role = true) :
    s.down slot n ∈ (Site.root program).code := by
  obtain ⟨hwalk, hcode⟩ := List.mem_filter.1 hs
  obtain ⟨⟨span, g⟩, above⟩ := s
  obtain rfl : g = f := hf
  let s : Site := ⟨.mk span g, above⟩
  have hchild : s.down slot n ∈ s.children := List.mem_map.2 ⟨(slot, n), hn, rfl⟩
  have hdown : s.down slot n ∈ (Site.root program).walk :=
    Site.mem_walk_trans hwalk (Site.mem_walk_of_child hchild (Site.mem_walk_self _))
  exact List.mem_filter.2 ⟨hdown, Bool.and_eq_true_iff.2 ⟨hholds span above, hcode⟩⟩

end Code

/-- A reference is an identifier in the code. -/
theorem ScopeGraph.identifier_of_mem_references {program : Node} {g : ScopeGraph}
    (hg : analyze program = .ok g) {r : Reference} (hr : r ∈ g.references) :
    r.mention.identifier ∈ (Site.root program).code ∧
      r.mention.identifier.node.form = .identifier r.name ∧ r.resolved.name = r.name := by
  obtain ⟨scopes, hbuilt⟩ := exists_built hg
  obtain ⟨-, hsaying, hname, hresolved⟩ := hbuilt.resolved r hr
  obtain ⟨x, hx, hsaying⟩ := List.mem_flatMap.1 hsaying
  -- The one mention that a place can make is of itself.
  rcases Site.mem_sayings hsaying with ⟨R, -, h⟩ | ⟨m, h, rfl, hidentifier⟩ |
    ⟨target, d, h, -⟩ | ⟨h, -⟩
  · cases h
  · obtain rfl : r.mention = m := ScopeEvent.mention.inj (Prod.mk.inj h).2
    refine ⟨hx, ?_, by rw [hresolved]⟩
    unfold Node.isIdentifier at hidentifier
    split at hidentifier
    · rename_i name hform
      rw [Site.name?, hform] at hname
      rw [hform, ← Option.some.inj hname]
    · cases hidentifier
  · cases h
  · cases (Prod.mk.inj h).2

theorem ScopeGraph.eq_of_undeclared? {g : ScopeGraph} {name : Text} {x : VariableId}
    (h : g.undeclared? name = some x) : x = ⟨0, name⟩ := by
  unfold undeclared? at h
  split at h
  · split at h
    · exact (Option.some.inj h).symm
    · cases h
  · cases h

/-! ## Flows stay in code -/

/-- Whether a value stands in the code of a program. -/
def Place.InCode (program : Node) : Place → Prop
  | .variable .. => True
  | .expression s | .pattern s | .use _ s => s ∈ (Site.root program).code

theorem mem_children_of_propertyValue? {f : Form} {value : Node}
    (h : f.propertyValue? = some (some value)) :
    (⟨.value, 0⟩, value) ∈ f.children := by
  cases f with
  | property | method | field =>
    obtain rfl := Option.some.inj h
    simp [Form.children, Form.parts, Part.children]
  | _ => cases h

theorem Part.mem_children_of_getElem? {role : Role} {ns : List Node} {i : Nat} {n : Node}
    (hn : ns[i]? = some n) : (⟨role, i⟩, n) ∈ (Part.all role ns).children := by
  apply List.mem_filterMap.2
  refine ⟨(some n, i), List.mem_zipIdx_iff_getElem?.2 ?_, rfl⟩
  simp [hn]

namespace Tracer

variable {ι : Type} {t : Tracer} {program : Node}

section Patterns

variable {s : Site} {properties : List Node} {i : Nat} {n : Node}

/-- The entries of an object pattern are code. -/
theorem entry_mem_code (hs : s ∈ (Site.root program).code)
    (hf : s.node.form = .objectPattern properties) (hn : properties[i]? = some n) :
    s.down ⟨.properties, i⟩ n ∈ (Site.root program).code := by
  apply Site.down_mem_code hs hf
  · exact List.mem_flatMap.2
      ⟨.all .properties properties, .head _, Part.mem_children_of_getElem? hn⟩
  · exact fun _ _ => rfl

/-- What receives the value of an entry is code. -/
theorem value_mem_code (hs : s ∈ (Site.root program).code) {value : Node}
    (hv : s.node.form.propertyValue? = some (some value)) :
    s.down ⟨.value, 0⟩ value ∈ (Site.root program).code := by
  apply Site.down_mem_code hs rfl (mem_children_of_propertyValue? hv)
  intro span above
  revert hv
  cases s.node.form with
  | property | method | field => exact fun _ => rfl
  | _ => exact fun hv => nomatch hv

end Patterns

variable {s s' : FlowState ι} {n : Nat} {a : List Nat}

/-- A step stays in the code. -/
theorem Step.inCode (hg : ScopeGraph.analyze program = .ok t.graph) (h : t.Step s n s')
    (hs : s.place.InCode program) : s'.place.InCode program := by
  cases h with
  | announce hr | mention hr =>
    have hreads := List.mem_of_getElem? hr
    have hreference := (List.mem_filter.1 (List.mem_filter.1 hreads).1).1
    exact (ScopeGraph.identifier_of_mem_references hg hreference).1
  | pass hp | readMember hp | member hp | call hp | construct hp | assigned hp =>
    exact (Site.parent_of_mem_code hs hp).1
  | assign hp _ hf | default hp _ hf | declare hp _ hf =>
    apply Site.down_mem_code (Site.parent_of_mem_code hs hp).1 hf
    · simp [Form.children, Form.parts, Part.children]
    · exact fun _ _ => rfl
  | bind => trivial
  | readProperty hf hn => exact entry_mem_code hs hf hn
  | property hf hn _ _ hv => exact value_mem_code (entry_mem_code hs hf hn) hv
  | left hf =>
    apply Site.down_mem_code hs hf
    · simp [Form.children, Form.parts, Part.children]
    · exact fun _ _ => rfl

/-- A flow stays in the code. -/
theorem Flow.inCode (hg : ScopeGraph.analyze program = .ok t.graph) (h : t.Flow s a s')
    (hs : s.place.InCode program) : s'.place.InCode program := by
  induction h with
  | here => exact hs
  | step first _ ih => exact ih (first.inCode hg hs)

end Tracer

/-! ## Places that end a search -/

/-- The names of expressions and patterns that scope analysis takes without their parts and that
following a value does not. -/
def trippingNames : List Text :=
  ["CallExpression", "NewExpression", "ObjectPattern", "AssignmentPattern",
    "VariableDeclarator"].map Text.ofString

/-- A place that ends a search which comes there. -/
inductive Site.Trips (joins : Bool) (s : Site) : ConstantFault → Prop where
  /-- A member access whose key cannot be asked for. -/
  | access {object key : Option Node} {computed optional : Bool} {fault : ConstantFault}
      (hform : s.node.form = .member object key computed optional)
      (h : s.node.form.KeyBreaks joins fault) :
      s.Trips joins fault
  /-- An entry of an object pattern whose key cannot be asked for. -/
  | entry {pattern : Site} {properties : List Node} {fault : ConstantFault}
      (hp : s.parent? = some pattern)
      (hpattern : pattern.node.form = .objectPattern properties)
      (h : s.node.form.KeyBreaks joins fault) :
      s.Trips joins fault
  /-- A member access as an entry of an object pattern has a key and nothing that receives the
  value. -/
  | value {pattern : Site} {properties : List Node} {object key : Option Node}
      {computed optional : Bool}
      (hp : s.parent? = some pattern) (hpattern : pattern.node.form = .objectPattern properties)
      (hform : s.node.form = .member object key computed optional) : s.Trips joins .missingPart
  /-- A node has the name of an expression or of a pattern and not its parts. -/
  | parts {name : Text} {children : List Node} (hform : s.node.form = .other name children)
      (hname : name ∈ trippingNames) : s.Trips joins .missingPart
  /-- A call of `require` whose first argument cannot be asked for its text. -/
  | argument {callee argument : Node} {arguments : List Node} {optional : Bool}
      {fault : ConstantFault}
      (hform : s.node.form = .call (some callee) (argument :: arguments) optional)
      (hcallee : callee.form = .identifier Tracer.requireName)
      (h : argument.TextBreaks joins fault) :
      s.Trips joins fault
  /-- A declaration that names as its module what can be none. -/
  | source {module : Node} {fault : ConstantFault}
      (hform : Tracer.moduleSource? s.node.form = some module)
      (h : Tracer.moduleId? module = .error fault) : s.Trips joins fault

/-- A program that has scopes lacks nothing. -/
theorem ScopeGraph.whole_of_analyze {program : Node} {g : ScopeGraph}
    (h : analyze program = .ok g) :
    (Site.root program).Whole := by
  obtain ⟨span, f⟩ := program
  cases f with
  | program body sourceType => exact exists_analyze_iff.1 ⟨g, h⟩
  | _ => cases h

/-- A node that nothing is known of and that scope analysis has passed has no name that needs parts
there. -/
theorem not_parted {program : Node} {g : ScopeGraph}
    (hg : ScopeGraph.analyze program = .ok g) {s : Site} (hs : s ∈ (Site.root program).code)
    {name : Text} {children : List Node} (hform : s.node.form = .other name children) :
    name ≠ Text.ofString "Identifier" ∧ name ∉ ScopeEvent.partedNames := by
  have hlacks := ScopeGraph.whole_of_analyze hg s hs
  constructor
  · intro hname
    exact hlacks (.parts hform (.inl hname))
  · intro hname
    exact hlacks (.parts hform (.inr hname))

theorem mem_partedNames_of_keyed {name : Text} (h : name ∈ keyedNames) :
    name ∈ ScopeEvent.partedNames := by
  obtain ⟨name, hname, rfl⟩ := List.mem_map.1 h
  apply Text.ofString_mem_map.2
  revert name
  simp

theorem mem_trippingNames_of_user {name : Text} (h : name ∈ userNames)
    (hparted : name ∉ ScopeEvent.partedNames) :
    name ∈ trippingNames := by
  obtain ⟨name, hname, rfl⟩ := List.mem_map.1 h
  apply Text.ofString_mem_map.2
  replace hparted := mt Text.ofString_mem_map.2 hparted
  revert name
  simp

theorem mem_trippingNames_of_receiver {name : Text} (h : name ∈ receiverNames)
    (hidentifier : name ≠ Text.ofString "Identifier") : name ∈ trippingNames := by
  obtain ⟨name, hname, rfl⟩ := List.mem_map.1 h
  apply Text.ofString_mem_map.2
  replace hidentifier := mt Text.ofString_inj.2 hidentifier
  revert name
  simp

namespace Tracer

section Causes

variable {ι : Type} {t : Tracer} {program : Node} {shapes : Text → Bool} {fault : ConstantFault}

/-- What is asked for its key at a place of the code. -/
theorem keyBreaks_of_error (hshaped : program.Shaped shapes)
    (hg : ScopeGraph.analyze program = .ok t.graph) {s : Site} (hs : s ∈ (Site.root program).code)
    (hkey : s.node.key? t.joins = .error fault) :
    s.node.form.KeyBreaks t.joins fault := by
  have hnode := (hshaped.of_mem_walk (List.mem_filter.1 hs).1).1
  have hparts : ∀ name children, s.node.form = .other name children → name ∉ keyedNames :=
    fun name children hform hname => (not_parted hg hs hform).2 (mem_partedNames_of_keyed hname)
  obtain ⟨⟨span, f⟩, above⟩ := s
  exact (hnode.key?_eq_error_iff hparts).1 hkey

/-- What has a key and nothing that receives a value is a member access. -/
theorem eq_member_of_propertyValue? {f : Form} {joins : Bool} {key : Text}
    (hk : f.key? joins = .ok (some key)) (hv : f.propertyValue? = none) :
    ∃ object property computed optional, f = .member object property computed optional := by
  cases f with
  | member object property computed optional => exact ⟨object, property, computed, optional, rfl⟩
  | property | method | field => cases hv
  | other name children =>
    rw [Form.key?] at hk
    split at hk <;> cases hk
  | _ => cases hk

/-- A fault in the code is at a place that trips. -/
theorem Faults.trips (hshaped : program.Shaped shapes)
    (hg : ScopeGraph.analyze program = .ok t.graph) {s : FlowState ι} {n : Nat}
    (h : t.Faults s n fault) (hs : s.place.InCode program) :
    ∃ x ∈ (Site.root program).code, x.Trips t.joins fault := by
  cases h with
  | memberKey hp _ hf hk =>
    have hparent := (Site.parent_of_mem_code hs hp).1
    exact ⟨_, hparent, .access hf (keyBreaks_of_error hshaped hg hparent hk)⟩
  | user hp huser hname =>
    -- Scope analysis has passed the node, so its name is none that needs parts there.
    have hparent := (Site.parent_of_mem_code hs hp).1
    obtain ⟨name, children, hform⟩ := Form.eq_other_of_mem_userNames hname huser
    refine ⟨_, hparent, .parts hform (mem_trippingNames_of_user ?_ (not_parted hg hparent hform).2)⟩
    rwa [Site.kind, Node.kind, hform] at hname
  | receiver hf hname =>
    exact ⟨_, hs, .parts hf (mem_trippingNames_of_receiver hname (not_parted hg hs hf).1)⟩
  | propertyKey hf hn hk =>
    have hentry := entry_mem_code hs hf hn
    exact ⟨_, hentry, .entry rfl hf (keyBreaks_of_error hshaped hg hentry hk)⟩
  | propertyValue hf hn hk _ hv =>
    obtain ⟨object, property, computed, optional, hform⟩ := eq_member_of_propertyValue? hk hv
    exact ⟨_, entry_mem_code hs hf hn, .value rfl hf hform⟩

/-- A value that stalls, stalls at a place that trips. -/
theorem Stalls.trips (hshaped : program.Shaped shapes)
    (hg : ScopeGraph.analyze program = .ok t.graph) {s : FlowState ι} (h : t.Stalls s fault)
    (hs : s.place.InCode program) :
    ∃ x ∈ (Site.root program).code, x.Trips t.joins fault := by
  obtain ⟨a, b, c, s', -, hflow, -, hend⟩ := h
  cases hend with
  | fault hfault => exact hfault.trips hshaped hg (hflow.inCode hg hs)

/-- A `require` that the program does not declare is an identifier in the code. -/
theorem IsRequire.identifier (hg : ScopeGraph.analyze program = .ok t.graph) {r : Reference}
    (h : t.IsRequire r) : r.mention.identifier ∈ (Site.root program).code ∧
      r.mention.identifier.node.form = .identifier requireName := by
  obtain ⟨x, hx, hr⟩ := h
  obtain ⟨hr, hresolved⟩ := List.mem_filter.1 (List.mem_filter.1 hr).1
  obtain ⟨hcode, hform, hname⟩ := ScopeGraph.identifier_of_mem_references hg hr
  refine ⟨hcode, ?_⟩
  rw [hform, ← hname, beq_iff_eq.1 hresolved, ScopeGraph.eq_of_undeclared? hx]

/-- A call of `require` is code, and its function is the name `require`. -/
theorem Calls.require (hg : ScopeGraph.analyze program = .ok t.graph) {r : Reference} {call : Site}
    {arguments : List Node} (hr : t.IsRequire r) (h : Calls r call arguments) :
    call ∈ (Site.root program).code ∧ ∃ callee optional,
      call.node.form = .call (some callee) arguments optional ∧
        callee.form = .identifier requireName := by
  obtain ⟨hcode, hname⟩ := hr.identifier hg
  obtain ⟨hcall, hchild⟩ := Site.parent_of_mem_code hcode h.parent
  refine ⟨hcall, ?_⟩
  obtain ⟨callee, optional, hform⟩ := h.form
  obtain ⟨⟨slot, n⟩, hn, heq⟩ := List.mem_map.1 hchild
  have hrole : slot.role = .callee := by
    have hrole := h.role
    rw [← heq] at hrole
    exact Option.some.inj hrole
  obtain rfl : n = r.mention.identifier.node := congrArg Site.node heq
  rw [hform] at hn
  obtain ⟨p, hp, hpart, hnode⟩ := Form.exists_part hn
  rw [hrole] at hpart
  simp only [Form.parts, List.mem_cons, List.not_mem_nil, or_false] at hp
  rcases hp with rfl | rfl | rfl
  · obtain rfl : callee = some _ := Option.mem_toList.1 hnode
    exact ⟨_, optional, hform, hname⟩
  · cases hpart
  · cases hpart

/-- The statements of a program are code. -/
theorem statement_mem_code (hg : ScopeGraph.analyze program = .ok t.graph) {s : Site}
    (hs : s ∈ t.statements) :
    s ∈ (Site.root program).code := by
  rw [statements, (ScopeGraph.references_of_analyze hg).1] at hs
  split at hs
  · rename_i body sourceType hform
    obtain ⟨⟨n, i⟩, hn, rfl⟩ := List.mem_map.1 hs
    have hroot : Site.root program ∈ (Site.root program).code :=
      List.mem_filter.2 ⟨Site.mem_walk_self _, rfl⟩
    apply Site.down_mem_code hroot hform
    · refine List.mem_flatMap.2 ⟨.all .body body, .head _, Part.mem_children_of_getElem? ?_⟩
      exact List.mem_zipIdx_iff_getElem?.1 hn
    · exact fun _ _ => rfl
  · cases hs

theorem Enters.inCode (hg : ScopeGraph.analyze program = .ok t.graph) {mode : Mode}
    {names : List Text} {m : TraceMap ι} {strategy : Strategy} {κ : Type} {s : FlowState κ}
    (h : t.Enters mode names m strategy s) : s.place.InCode program := by
  cases h with
  | require hr hcall => exact (hcall.require hg hr).1
  | _ => trivial

/-- What stops a strategy is a place that trips. -/
theorem Stops.trips (hshaped : program.Shaped shapes)
    (hg : ScopeGraph.analyze program = .ok t.graph) {mode : Mode} {names : List Text}
    {m : TraceMap ι} {strategy : Strategy} (h : t.Stops mode names m strategy fault) :
    ∃ x ∈ (Site.root program).code, x.Trips t.joins fault := by
  cases h with
  | value hs h => exact h.trips hshaped hg (hs.inCode hg)
  | argument hr hcall h =>
    obtain ⟨hcode, callee, optional, hform, hcallee⟩ := hcall.require hg hr
    rename_i call arguments
    cases arguments with
    | nil => cases h
    | cons argument arguments =>
      have hargument : argument.Shaped shapes :=
        (hshaped.of_mem_walk (List.mem_filter.1 hcode).1).1.parts
          (.all .arguments (argument :: arguments))
          (by simp [hform, Form.parts]) argument (by simp)
      exact ⟨_, hcode, .argument hform hcallee (hargument.constantText?_eq_error_iff.1 h)⟩
  | call hr hcall hform =>
    refine ⟨_, (Site.parent_of_mem_code (hr.identifier hg).1 hcall).1, .parts hform ?_⟩
    exact Text.ofString_mem_map.2 (by simp)
  | source hdeclaration h =>
    refine ⟨_, statement_mem_code hg hdeclaration, ?_⟩
    unfold moduleRoot? at h
    split at h
    · cases h
    · rename_i module hmodule
      rcases bind_eq_error.1 h with h | ⟨_, _, h⟩
      · exact .source hmodule h
      · cases h

end Causes

/-- **A search ends early exactly if something stops it, and what can stop it are few kinds of
places.** For a program that comes of reading and has scopes, whatever is traced: a strategy finds
all of its matches unless one of its values comes to a fault, or the module of a call of `require`
or of a declaration cannot be asked for; it then ends in such a fault, and the code of the program
has a place that trips with this fault. -/
theorem strategies_end_early_iff_stopped {ι : Type} {src : Source} {sourceType : Option Text}
    {root : Concrete} {program : Node} {g : ScopeGraph}
    (hread : Node.ofConcrete src sourceType root = .ok program)
    (hscopes : ScopeGraph.analyze program = .ok g) (joins : Bool) (mode : Mode) (names : List Text)
    (m : TraceMap ι) (strategy : Strategy) :
    ((strategyMatches ⟨g, joins⟩ mode names m strategy).fault = none ↔
      ∀ fault, ¬ Stops ⟨g, joins⟩ mode names m strategy fault) ∧
    (∀ fault, (strategyMatches ⟨g, joins⟩ mode names m strategy).fault = some fault →
      Stops ⟨g, joins⟩ mode names m strategy fault) ∧
    ∀ fault, Stops ⟨g, joins⟩ mode names m strategy fault →
      ∃ s ∈ (Site.root program).code, s.Trips joins fault := by
  have hshaped := Node.ofConcrete_shaped hread
  have hprogram : g.program = program := (ScopeGraph.references_of_analyze hscopes).1
  have hraises : (strategyMatches ⟨g, joins⟩ mode names m strategy).Raises
      (Stops ⟨g, joins⟩ mode names m strategy) :=
    strategyMatches_raises (hprogram ▸ hshaped) strategy
  refine ⟨hraises.fault_eq_none_iff, hraises.of_fault, fun fault hstops => ?_⟩
  exact Stops.trips (t := ⟨g, joins⟩) hshaped hscopes hstops

/-- The tree of `x[-]`, which is no program: nothing follows the sign. -/
def unfinishedKey : Concrete :=
  .here "program" none 0 4
    [.here "expression_statement" none 0 4 [.here "subscript_expression" none 0 4 [
    .here "identifier" (some "object") 0 1 [], .here "unary_expression" (some "index") 2 3 [
      .here "-" (some "operator") 2 3 []]]]]

/-- Whether what is around the first read of a global `x` is a member access that lacks a part of
its key. -/
def lacksKeyPart (g : ScopeGraph) : Bool :=
  match (g.readsOf ⟨0, "x"⟩)[0]? with
  | some r => r.mention.identifier.role? == some .object && match r.mention.identifier.parent? with
    | some p => match p.node.form, p.node.key? true with
      | .member .., .error .missingPart => true
      | _, _ => false
    | none => false
  | none => false

theorem strategies_end_early_iff_stopped_sign :
    ∃ src program g, Node.ofConcrete src none unfinishedKey = .ok program ∧
      ScopeGraph.analyze program = .ok g ∧
      ∃ fault, (strategyMatches ⟨g, true⟩ .strict [] functionMap .globals).fault = some fault ∧
        Stops ⟨g, true⟩ .strict [] functionMap .globals fault ∧
        ∃ s ∈ (Site.root program).code, s.Trips true fault := by
  have hgraph : (graphOf "x[-]" unfinishedKey).any (fun p =>
      p.2.2.undeclared? "x" == some ⟨0, "x"⟩ && lacksKeyPart p.2.2) = true := by decide +kernel
  obtain ⟨⟨src, program, g⟩, hsome, hgraph⟩ := (Option.any_eq_true _ _).1 hgraph
  obtain ⟨hread, hscopes⟩ := graphOf_eq_some hsome
  obtain ⟨hx, hgraph⟩ := Bool.and_eq_true_iff.1 hgraph
  have hstops : Stops ⟨g, true⟩ .strict [] functionMap .globals .missingPart := by
    unfold lacksKeyPart at hgraph
    split at hgraph
    · rename_i r hr
      obtain ⟨hrole, hgraph⟩ := Bool.and_eq_true_iff.1 hgraph
      split at hgraph
      · rename_i p hp
        split at hgraph
        · rename_i hform hkey
          -- The value comes from the variable to its first mention, and the access around it has no
          -- key.
          have hchild : functionMap.child? "x" = some (functionMap.focus 1) := rfl
          apply Stops.value (.global hchild (beq_iff_eq.1 hx))
          refine ⟨_, _, [0], _, rfl, .step (.mention hr) (.here _), by simp, ?_⟩
          exact .fault (.memberKey hp (beq_iff_eq.1 hrole) hform hkey)
        · cases hgraph
      · cases hgraph
    · cases hgraph
  obtain ⟨hnone, hfault, htrips⟩ :=
    strategies_end_early_iff_stopped hread hscopes true .strict [] functionMap .globals
  cases hcase : (strategyMatches ⟨g, true⟩ .strict [] functionMap .globals).fault with
  | none => exact absurd hstops (hnone.1 hcase _)
  | some fault =>
    exact ⟨src, program, g, hread, hscopes, fault, hcase, hfault fault hcase,
      htrips fault (hfault fault hcase)⟩

end Tracer

end ApiTrace
