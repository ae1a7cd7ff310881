import ApiTrace.Trace.Flow

/-!
# Flow of values as a relation

Where a traced value can get to, without regard to how it is looked for. A value stands somewhere:
in a variable, as the value of an expression, before a pattern that receives it, or at a place where
it is used. `Tracer.Step` lists the ways in which it gets from one place to the next, each with a
number that says in which order they are tried, and `Tracer.Faults` the places where the program
lacks what is needed to go on.

* `Tracer.Flow` is a sequence of steps with its address, the numbers of its steps.
* `Tracer.Occurs` is an outcome at the end of a flow that enters no variable twice: a match where
  the value is used and the trace map has something to report, or a fault.

The variables that a value came through are kept in the state, the last one first. A flow only ever
adds to them (`Tracer.Flow.via_suffix`), so a flow enters no variable twice exactly if they are all
different at its end.
-/

namespace ApiTrace

/-! ## States -/

/-- The role of a node in its parent. -/
def Site.role? (s : Site) : Option Role := s.above.head?.map (·.slot.role)

/-- The pattern in a property of an object pattern, for those nodes that can have one. -/
def Form.propertyValue? : Form → Option (Option Node)
  | .property _ value .. | .method _ _ value .. | .field _ _ value _ => some value
  | _ => none

/-- Whether a form has the parts to use a value. -/
def Form.isUser : Form → Bool
  | .member .. | .call .. | .construct .. | .assignment .. | .assignmentPattern ..
  | .variableDeclarator .. => true
  | _ => false

/-- The references that read a variable, in order. -/
def ScopeGraph.readsOf (g : ScopeGraph) (x : VariableId) : List Reference :=
  (g.referencesOf x).filter (·.mention.access.reads)

theorem Form.name_mem_userNames {f : Form} (h : f.isUser = true) : f.name ∈ userNames := by
  cases f with
  | member | call | construct | assignment | assignmentPattern | variableDeclarator =>
    simp [Form.name, userNames]
  | _ => cases h

theorem isBoundary_of_mem_userNames {name : Text} (h : name ∈ userNames) :
    isBoundary name = true := by
  revert name
  decide

/-- Where a traced value stands. -/
inductive Place where
  /-- In a variable. `announced` says whether a read of the variable is a use of the value. -/
  | variable (x : VariableId) (announced : Bool)
  /-- As the value of an expression. -/
  | expression (s : Site)
  /-- Before a pattern that receives it. -/
  | pattern (s : Site)
  /-- At a node that uses it. -/
  | use (use : Use) (s : Site)

/-- A traced value somewhere, and the variables through which it came there, the last one first. -/
structure FlowState (ι : Type) where
  place : Place
  value : Traced ι
  via : List VariableId

namespace Tracer

variable {ι : Type}

/-! ## Steps -/

/-- One step of a value. The number of a step orders the steps that a state has. -/
inductive Step (t : Tracer) : FlowState ι → Nat → FlowState ι → Prop where
  | announce {x v via i r} (hr : (t.graph.readsOf x)[i]? = some r) :
      Step t ⟨.variable x true, v, via⟩ (2 * i) ⟨.use .read r.mention.identifier, v, x :: via⟩
  | mention {x announced v via i r} (hr : (t.graph.readsOf x)[i]? = some r) :
      Step t ⟨.variable x announced, v, via⟩ (2 * i + 1)
        ⟨.expression r.mention.identifier, v, x :: via⟩
  | pass {s p v via} (hp : s.parent? = some p) (hb : isBoundary p.kind = false) :
      Step t ⟨.expression s, v, via⟩ 0 ⟨.expression p, v, via⟩
  | readMember {s p object property computed optional key v w via} (hp : s.parent? = some p)
      (hr : s.role? = some .object) (hf : p.node.form = .member object property computed optional)
      (hk : p.node.key? t.joins = .ok (some key)) (hw : v.child? key = some w) :
      Step t ⟨.expression s, v, via⟩ 0 ⟨.use .read p, w, via⟩
  | member {s p object property computed optional key v w via} (hp : s.parent? = some p)
      (hr : s.role? = some .object) (hf : p.node.form = .member object property computed optional)
      (hk : p.node.key? t.joins = .ok (some key)) (hw : v.child? key = some w) :
      Step t ⟨.expression s, v, via⟩ 1 ⟨.expression p, w, via⟩
  | call {s p callee arguments optional v via} (hp : s.parent? = some p)
      (hr : s.role? = some .callee) (hf : p.node.form = .call callee arguments optional) :
      Step t ⟨.expression s, v, via⟩ 0 ⟨.use .call p, v, via⟩
  | construct {s p callee arguments v via} (hp : s.parent? = some p)
      (hr : s.role? = some .callee) (hf : p.node.form = .construct callee arguments) :
      Step t ⟨.expression s, v, via⟩ 0 ⟨.use .construct p, v, via⟩
  | assign {s p operator left right v via} (hp : s.parent? = some p)
      (hr : s.role? = some .right) (hf : p.node.form = .assignment operator (some left) right) :
      Step t ⟨.expression s, v, via⟩ 0 ⟨.pattern (p.down ⟨.left, 0⟩ left), v, via⟩
  | assigned {s p operator left right v via} (hp : s.parent? = some p)
      (hr : s.role? = some .right) (hf : p.node.form = .assignment operator left right) :
      Step t ⟨.expression s, v, via⟩ 1 ⟨.expression p, v, via⟩
  | default {s p left right v via} (hp : s.parent? = some p)
      (hr : s.role? = some .right) (hf : p.node.form = .assignmentPattern (some left) right) :
      Step t ⟨.expression s, v, via⟩ 0 ⟨.pattern (p.down ⟨.left, 0⟩ left), v, via⟩
  | declare {s p target init v via} (hp : s.parent? = some p)
      (hr : s.role? = some .init) (hf : p.node.form = .variableDeclarator (some target) init) :
      Step t ⟨.expression s, v, via⟩ 0 ⟨.pattern (p.down ⟨.name, 0⟩ target), v, via⟩
  | bind {s name x v via} (hf : s.node.form = .identifier name)
      (hx : t.graph.findVariable? s.start name = some x) :
      Step t ⟨.pattern s, v, via⟩ 0 ⟨.variable x false, v, via⟩
  | readProperty {s properties i n key v w via} (hf : s.node.form = .objectPattern properties)
      (hn : properties[i]? = some n) (hk : n.key? t.joins = .ok (some key))
      (hw : v.child? key = some w) :
      Step t ⟨.pattern s, v, via⟩ (2 * i) ⟨.use .read (s.down ⟨.properties, i⟩ n), w, via⟩
  | property {s properties i n key value v w via} (hf : s.node.form = .objectPattern properties)
      (hn : properties[i]? = some n) (hk : n.key? t.joins = .ok (some key))
      (hw : v.child? key = some w) (hv : n.form.propertyValue? = some (some value)) :
      Step t ⟨.pattern s, v, via⟩ (2 * i + 1)
        ⟨.pattern ((s.down ⟨.properties, i⟩ n).down ⟨.value, 0⟩ value), w, via⟩
  | left {s left right v via} (hf : s.node.form = .assignmentPattern (some left) right) :
      Step t ⟨.pattern s, v, via⟩ 0 ⟨.pattern (s.down ⟨.left, 0⟩ left), v, via⟩

/-- A fault that stops a value, with the number that the step would have. -/
inductive Faults (t : Tracer) : FlowState ι → Nat → ConstantFault → Prop where
  | memberKey {s p object property computed optional fault v via} (hp : s.parent? = some p)
      (hr : s.role? = some .object) (hf : p.node.form = .member object property computed optional)
      (hk : p.node.key? t.joins = .error fault) :
      Faults t ⟨.expression s, v, via⟩ 0 fault
  | user {s p v via} (hp : s.parent? = some p) (hf : p.node.form.isUser = false)
      (hn : p.kind ∈ userNames) :
      Faults t ⟨.expression s, v, via⟩ 0 .missingPart
  | receiver {s name children v via} (hf : s.node.form = .other name children)
      (hn : name ∈ receiverNames) :
      Faults t ⟨.pattern s, v, via⟩ 0 .missingPart
  | propertyKey {s properties i n fault v via} (hf : s.node.form = .objectPattern properties)
      (hn : properties[i]? = some n) (hk : n.key? t.joins = .error fault) :
      Faults t ⟨.pattern s, v, via⟩ (2 * i) fault
  | propertyValue {s properties i n key v w via} (hf : s.node.form = .objectPattern properties)
      (hn : properties[i]? = some n) (hk : n.key? t.joins = .ok (some key))
      (hw : v.child? key = some w) (hv : n.form.propertyValue? = none) :
      Faults t ⟨.pattern s, v, via⟩ (2 * i + 1) .missingPart

/-! ## Flows and what comes of them -/

/-- Steps one after the other, with their numbers. -/
inductive Flow (t : Tracer) : FlowState ι → List Nat → FlowState ι → Prop where
  | here (s : FlowState ι) : Flow t s [] s
  | step {s s' s'' : FlowState ι} {n : Nat} {a : List Nat} (first : t.Step s n s')
      (rest : Flow t s' a s'') : Flow t s (n :: a) s''

/-- What a state comes to by itself. -/
inductive Ends (t : Tracer) : FlowState ι → List Nat → Except ConstantFault Match → Prop where
  | found {use s v via entry} (h : v.map.payload? use = some entry) :
      Ends t ⟨.use use s, v, via⟩ [] (.ok ⟨s, v.path, use, entry, via⟩)
  | fault {s n fault} (h : t.Faults s n fault) : Ends t s [n] (.error fault)

/-- An outcome of a flow that enters no variable twice, with its address. -/
def Occurs (t : Tracer) (s : FlowState ι) (a : List Nat) (o : Except ConstantFault Match) : Prop :=
  ∃ b c s', a = b ++ c ∧ t.Flow s b s' ∧ s'.via.Nodup ∧ t.Ends s' c o

variable {t : Tracer} {s s' : FlowState ι} {a b : List Nat} {n : Nat}
    {o : Except ConstantFault Match}

theorem Step.via_suffix (h : t.Step s n s') : s.via <:+ s'.via := by
  cases h <;> first | exact List.suffix_rfl | exact List.suffix_cons _ _

theorem Flow.via_suffix (h : t.Flow s a s') : s.via <:+ s'.via := by
  induction h with
  | here s => exact List.suffix_rfl
  | step first _ ih => exact first.via_suffix.trans ih

/-- A state from which something occurs has entered no variable twice. -/
theorem Occurs.nodup (h : t.Occurs s a o) : s.via.Nodup := by
  obtain ⟨b, c, s', rfl, hflow, hnodup, -⟩ := h
  exact hnodup.sublist hflow.via_suffix.sublist

/-- The outcomes of a state are its own and, a step away, those of the next states. -/
theorem occurs_iff : t.Occurs s a o ↔
    (s.via.Nodup ∧ t.Ends s a o) ∨ ∃ n b s', a = n :: b ∧ t.Step s n s' ∧ t.Occurs s' b o := by
  constructor
  · rintro ⟨b, c, s', rfl, hflow, hnodup, hend⟩
    cases hflow with
    | here => exact .inl ⟨hnodup, hend⟩
    | step first rest => exact .inr ⟨_, _, _, rfl, first, _, _, _, rfl, rest, hnodup, hend⟩
  · rintro (⟨hnodup, hend⟩ | ⟨n, d, s₁, rfl, first, b, c, s', rfl, hflow, hnodup, hend⟩)
    · exact ⟨[], a, s, rfl, .here s, hnodup, hend⟩
    · exact ⟨n :: b, c, s', rfl, .step first hflow, hnodup, hend⟩

/-! ## The steps of each place

What a value can do from an expression is decided by the node above it, and from a pattern by the
pattern itself. -/

theorem step_expression_iff {node : Node} {frame : Frame} {above : List Frame} {v : Traced ι}
    {via : List VariableId} {n : Nat} {s' : FlowState ι} :
    t.Step ⟨.expression ⟨node, frame :: above⟩, v, via⟩ n s' ↔
      match frame.parent.form with
      | .member .. => frame.slot.role = .object ∧ ∃ key w,
          frame.parent.key? t.joins = .ok (some key) ∧ v.child? key = some w ∧
            (n = 0 ∧ s' = ⟨.use .read ⟨frame.parent, above⟩, w, via⟩ ∨
              n = 1 ∧ s' = ⟨.expression ⟨frame.parent, above⟩, w, via⟩)
      | .call .. =>
        frame.slot.role = .callee ∧ n = 0 ∧ s' = ⟨.use .call ⟨frame.parent, above⟩, v, via⟩
      | .construct .. =>
        frame.slot.role = .callee ∧ n = 0 ∧ s' = ⟨.use .construct ⟨frame.parent, above⟩, v, via⟩
      | .assignment _ left _ => frame.slot.role = .right ∧
          ((∃ l, left = some l ∧ n = 0 ∧
              s' = ⟨.pattern (Site.down ⟨frame.parent, above⟩ ⟨.left, 0⟩ l), v, via⟩) ∨
            n = 1 ∧ s' = ⟨.expression ⟨frame.parent, above⟩, v, via⟩)
      | .assignmentPattern left _ => frame.slot.role = .right ∧ ∃ l, left = some l ∧ n = 0 ∧
          s' = ⟨.pattern (Site.down ⟨frame.parent, above⟩ ⟨.left, 0⟩ l), v, via⟩
      | .variableDeclarator target _ => frame.slot.role = .init ∧ ∃ l, target = some l ∧ n = 0 ∧
          s' = ⟨.pattern (Site.down ⟨frame.parent, above⟩ ⟨.name, 0⟩ l), v, via⟩
      | form => isBoundary form.name = false ∧ n = 0 ∧
          s' = ⟨.expression ⟨frame.parent, above⟩, v, via⟩ := by
  have boundary : frame.parent.form.isUser = true → isBoundary frame.parent.form.name = true :=
    fun h => isBoundary_of_mem_userNames (Form.name_mem_userNames h)
  constructor
  · intro h
    cases h with
    | pass hp hb =>
      cases hp
      replace hb : isBoundary frame.parent.form.name = false := hb
      split
      all_goals first
        | exact ⟨hb, rfl, rfl⟩
        | (rename_i hf; rw [boundary (by rw [hf]; rfl)] at hb; cases hb)
    | readMember hp hr hf hk hw =>
      cases hp
      rw [hf]
      exact ⟨Option.some.inj hr, _, _, hk, hw, .inl ⟨rfl, rfl⟩⟩
    | member hp hr hf hk hw =>
      cases hp
      rw [hf]
      exact ⟨Option.some.inj hr, _, _, hk, hw, .inr ⟨rfl, rfl⟩⟩
    | call hp hr hf =>
      cases hp
      rw [hf]
      exact ⟨Option.some.inj hr, rfl, rfl⟩
    | construct hp hr hf =>
      cases hp
      rw [hf]
      exact ⟨Option.some.inj hr, rfl, rfl⟩
    | assign hp hr hf =>
      cases hp
      rw [hf]
      exact ⟨Option.some.inj hr, .inl ⟨_, rfl, rfl, rfl⟩⟩
    | assigned hp hr hf =>
      cases hp
      rw [hf]
      exact ⟨Option.some.inj hr, .inr ⟨rfl, rfl⟩⟩
    | default hp hr hf =>
      cases hp
      rw [hf]
      exact ⟨Option.some.inj hr, _, rfl, rfl, rfl⟩
    | declare hp hr hf =>
      cases hp
      rw [hf]
      exact ⟨Option.some.inj hr, _, rfl, rfl, rfl⟩
  · intro h
    split at h
    · rename_i hf
      obtain ⟨hr, key, w, hk, hw, ⟨rfl, rfl⟩ | ⟨rfl, rfl⟩⟩ := h
      · exact .readMember rfl (congrArg some hr) hf hk hw
      · exact .member rfl (congrArg some hr) hf hk hw
    · rename_i hf
      obtain ⟨hr, rfl, rfl⟩ := h
      exact .call rfl (congrArg some hr) hf
    · rename_i hf
      obtain ⟨hr, rfl, rfl⟩ := h
      exact .construct rfl (congrArg some hr) hf
    · rename_i hf
      obtain ⟨hr, ⟨l, rfl, rfl, rfl⟩ | ⟨rfl, rfl⟩⟩ := h
      · exact .assign rfl (congrArg some hr) hf
      · exact .assigned rfl (congrArg some hr) hf
    · rename_i hf
      obtain ⟨hr, l, rfl, rfl, rfl⟩ := h
      exact .default rfl (congrArg some hr) hf
    · rename_i hf
      obtain ⟨hr, l, rfl, rfl, rfl⟩ := h
      exact .declare rfl (congrArg some hr) hf
    · obtain ⟨hb, rfl, rfl⟩ := h
      exact .pass rfl hb

theorem faults_expression_iff {node : Node} {frame : Frame} {above : List Frame} {v : Traced ι}
    {via : List VariableId} {n : Nat} {fault : ConstantFault} :
    t.Faults ⟨.expression ⟨node, frame :: above⟩, v, via⟩ n fault ↔
      match frame.parent.form with
      | .member .. => frame.slot.role = .object ∧ n = 0 ∧ frame.parent.key? t.joins = .error fault
      | form => form.isUser = false ∧ form.name ∈ userNames ∧ n = 0 ∧ fault = .missingPart := by
  constructor
  · intro h
    cases h with
    | memberKey hp hr hf hk =>
      cases hp
      rw [hf]
      exact ⟨Option.some.inj hr, rfl, hk⟩
    | user hp hf hn =>
      cases hp
      split
      · rename_i hm
        replace hf : frame.parent.form.isUser = false := hf
        rw [hm] at hf
        cases hf
      · exact ⟨hf, hn, rfl, rfl⟩
  · intro h
    split at h
    · rename_i hf
      obtain ⟨hr, rfl, hk⟩ := h
      exact .memberKey rfl (congrArg some hr) hf hk
    · obtain ⟨hf, hn, rfl, rfl⟩ := h
      exact .user rfl hf hn

theorem step_expression_iff_of_not_user {node : Node} {frame : Frame} {above : List Frame}
    {v : Traced ι} {via : List VariableId} {n : Nat} {s' : FlowState ι}
    (huser : frame.parent.form.isUser = false) :
    t.Step ⟨.expression ⟨node, frame :: above⟩, v, via⟩ n s' ↔
      isBoundary frame.parent.form.name = false ∧ n = 0 ∧
        s' = ⟨.expression ⟨frame.parent, above⟩, v, via⟩ := by
  constructor
  · intro h
    cases h with
    | pass hp hb =>
      cases hp
      exact ⟨hb, rfl, rfl⟩
    | readMember hp hr hf | member hp hr hf | call hp hr hf | construct hp hr hf | assign hp hr hf
    | assigned hp hr hf | default hp hr hf | declare hp hr hf =>
      cases hp
      rw [hf] at huser
      cases huser
  · rintro ⟨hb, rfl, rfl⟩
    exact .pass rfl hb

theorem faults_expression_iff_of_not_user {node : Node} {frame : Frame} {above : List Frame}
    {v : Traced ι} {via : List VariableId} {n : Nat} {fault : ConstantFault}
    (huser : frame.parent.form.isUser = false) :
    t.Faults ⟨.expression ⟨node, frame :: above⟩, v, via⟩ n fault ↔
      frame.parent.form.name ∈ userNames ∧ n = 0 ∧ fault = .missingPart := by
  constructor
  · intro h
    cases h with
    | memberKey hp hr hf hk =>
      cases hp
      rw [hf] at huser
      cases huser
    | user hp hf hn =>
      cases hp
      exact ⟨hn, rfl, rfl⟩
  · rintro ⟨hn, rfl, rfl⟩
    exact .user rfl huser hn

theorem step_pattern_iff {self : Site} {v : Traced ι} {via : List VariableId} {k : Nat}
    {s' : FlowState ι} : t.Step ⟨.pattern self, v, via⟩ k s' ↔
      match self.node.form with
      | .identifier name => ∃ x, t.graph.findVariable? self.start name = some x ∧ k = 0 ∧
          s' = ⟨.variable x false, v, via⟩
      | .objectPattern properties => ∃ i n key w, properties[i]? = some n ∧
          n.key? t.joins = .ok (some key) ∧ v.child? key = some w ∧
            (k = 2 * i ∧ s' = ⟨.use .read (self.down ⟨.properties, i⟩ n), w, via⟩ ∨
              k = 2 * i + 1 ∧ ∃ value, n.form.propertyValue? = some (some value) ∧
                s' = ⟨.pattern ((self.down ⟨.properties, i⟩ n).down ⟨.value, 0⟩ value), w, via⟩)
      | .assignmentPattern left _ => ∃ l, left = some l ∧ k = 0 ∧
          s' = ⟨.pattern (self.down ⟨.left, 0⟩ l), v, via⟩
      | _ => False := by
  constructor
  · intro h
    cases h with
    | bind hf hx =>
      rw [hf]
      exact ⟨_, hx, rfl, rfl⟩
    | readProperty hf hn hk hw =>
      rw [hf]
      exact ⟨_, _, _, _, hn, hk, hw, .inl ⟨rfl, rfl⟩⟩
    | property hf hn hk hw hv =>
      rw [hf]
      exact ⟨_, _, _, _, hn, hk, hw, .inr ⟨rfl, _, hv, rfl⟩⟩
    | left hf =>
      rw [hf]
      exact ⟨_, rfl, rfl, rfl⟩
  · intro h
    split at h
    · rename_i hf
      obtain ⟨x, hx, rfl, rfl⟩ := h
      exact .bind hf hx
    · rename_i hf
      obtain ⟨i, n, key, w, hn, hk, hw, ⟨rfl, rfl⟩ | ⟨rfl, value, hv, rfl⟩⟩ := h
      · exact .readProperty hf hn hk hw
      · exact .property hf hn hk hw hv
    · rename_i hf
      obtain ⟨l, rfl, rfl, rfl⟩ := h
      exact .left hf
    · exact h.elim

theorem faults_pattern_iff {self : Site} {v : Traced ι} {via : List VariableId} {k : Nat}
    {fault : ConstantFault} : t.Faults ⟨.pattern self, v, via⟩ k fault ↔
      match self.node.form with
      | .objectPattern properties => ∃ i n, properties[i]? = some n ∧
          (k = 2 * i ∧ n.key? t.joins = .error fault ∨
            k = 2 * i + 1 ∧ fault = .missingPart ∧ n.form.propertyValue? = none ∧
              ∃ key w, n.key? t.joins = .ok (some key) ∧ v.child? key = some w)
      | .other name _ => name ∈ receiverNames ∧ k = 0 ∧ fault = .missingPart
      | _ => False := by
  constructor
  · intro h
    cases h with
    | receiver hf hn =>
      rw [hf]
      exact ⟨hn, rfl, rfl⟩
    | propertyKey hf hn hk =>
      rw [hf]
      exact ⟨_, _, hn, .inl ⟨rfl, hk⟩⟩
    | propertyValue hf hn hk hw hv =>
      rw [hf]
      exact ⟨_, _, hn, .inr ⟨rfl, rfl, hv, _, _, hk, hw⟩⟩
  · intro h
    split at h
    · rename_i hf
      obtain ⟨i, n, hn, ⟨rfl, hk⟩ | ⟨rfl, rfl, hv, key, w, hk, hw⟩⟩ := h
      · exact .propertyKey hf hn hk
      · exact .propertyValue hf hn hk hw hv
    · rename_i hf
      obtain ⟨hn, rfl, rfl⟩ := h
      exact .receiver hf hn
    · exact h.elim

theorem step_variable_iff {x : VariableId} {announced : Bool} {v : Traced ι} {via : List VariableId}
    {k : Nat} {s' : FlowState ι} : t.Step ⟨.variable x announced, v, via⟩ k s' ↔
      ∃ i r, (t.graph.readsOf x)[i]? = some r ∧
        (announced = true ∧ k = 2 * i ∧ s' = ⟨.use .read r.mention.identifier, v, x :: via⟩ ∨
          k = 2 * i + 1 ∧ s' = ⟨.expression r.mention.identifier, v, x :: via⟩) := by
  constructor
  · intro h
    cases h with
    | announce hr => exact ⟨_, _, hr, .inl ⟨rfl, rfl, rfl⟩⟩
    | mention hr => exact ⟨_, _, hr, .inr ⟨rfl, rfl⟩⟩
  · rintro ⟨i, r, hr, ⟨rfl, rfl, rfl⟩ | ⟨rfl, rfl⟩⟩
    · exact .announce hr
    · exact .mention hr

end Tracer

end ApiTrace
