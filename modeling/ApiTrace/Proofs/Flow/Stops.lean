import ApiTrace.Proofs.Flow.Interop
import ApiTrace.Proofs.Reading.Shape

/-!
# What ends a search early

A search for a strategy ends early for one of three reasons: a value that the strategy follows comes
to a fault, the module that a call of `require` loads cannot be determined, or the one that a
declaration names. The first is said of the states in which the strategy begins (`Tracer.Enters`),
and `Tracer.Stops` lists all three. In a program that comes of reading nothing else ends a search
(`Tracer.strategyMatches_raises`).
-/

namespace ApiTrace

/-! ## Faults of searches -/

namespace Emission

variable {ε α : Type}

/-- A search ends early exactly if there is a fault for it to end in, and then it ends in one of
them. -/
structure Raises (e : Emission ε) (faults : ε → Prop) : Prop where
  of_fault : ∀ fault, e.fault = some fault → faults fault
  of_none : e.fault = none → ∀ fault, ¬ faults fault

namespace Raises

variable {e e' : Emission ε} {P Q : ε → Prop}

theorem fault_eq_none_iff (h : e.Raises P) : e.fault = none ↔ ∀ fault, ¬ P fault := by
  refine ⟨h.of_none, fun hnone => ?_⟩
  cases hfault : e.fault with
  | none => rfl
  | some fault => exact absurd (h.of_fault fault hfault) (hnone fault)

theorem congr (h : e.Raises P) (hPQ : ∀ fault, P fault ↔ Q fault) : e.Raises Q :=
  ⟨fun fault hfault => (hPQ fault).1 (h.of_fault fault hfault),
    fun hnone fault hQ => h.of_none hnone fault ((hPQ fault).2 hQ)⟩

/-- A search that does not end early. -/
theorem of_fault_eq_none (h : e.fault = none) (hP : ∀ fault, ¬ P fault) : e.Raises P := by
  refine ⟨fun fault hfault => ?_, fun _ => hP⟩
  rw [h] at hfault
  cases hfault

theorem empty (hP : ∀ fault, ¬ P fault) : (.empty : Emission ε).Raises P := of_fault_eq_none rfl hP

theorem fail (fault : ε) : (.fail fault : Emission ε).Raises (· = fault) :=
  ⟨fun _ h => (Option.some.inj h).symm, nofun⟩

theorem append (h : e.Raises P) (h' : e'.Raises Q) :
    (e ++ e').Raises fun fault => P fault ∨ Q fault := by
  constructor
  · intro fault hfault
    rw [append_def, Emission.append] at hfault
    split at hfault
    · exact .inl (h.of_fault fault hfault)
    · exact .inr (h'.of_fault fault hfault)
  · intro hnone fault hPQ
    obtain ⟨hnone, hnone'⟩ := fault_append_eq_none_iff.1 hnone
    rcases hPQ with hP | hQ
    · exact h.of_none hnone fault hP
    · exact h'.of_none hnone' fault hQ

/-- A search that follows one which does not end early. -/
theorem append_right (h' : e'.Raises Q) (h : e.fault = none) : (e ++ e').Raises Q :=
  ((of_fault_eq_none h (P := fun _ => False) fun _ => id).append h').congr fun _ => by simp

theorem concatMap {f : α → Emission ε} {R : α → ε → Prop} {l : List α}
    (h : ∀ a ∈ l, (f a).Raises (R a)) :
    (concatMap f l).Raises fun fault => ∃ a ∈ l, R a fault := by
  induction l with
  | nil => exact empty (by simp)
  | cons a rest ih =>
    obtain ⟨ha, hrest⟩ := List.forall_mem_cons.1 h
    exact (ha.append (ih hrest)).congr fun fault => by simp

theorem withValue {value : Except ε (Option α)} {f : α → Emission ε} {R : α → ε → Prop}
    (h : ∀ a, value = .ok (some a) → (f a).Raises (R a)) :
    (withValue value f).Raises fun fault =>
      value = .error fault ∨ ∃ a, value = .ok (some a) ∧ R a fault := by
  match value with
  | .error fault => exact (fail fault).congr fun fault' => by simp [eq_comm]
  | .ok none => exact empty (by simp)
  | .ok (some a) => exact (h a rfl).congr fun fault => by simp

theorem filterMap (f : Match → Option Match) (h : e.Raises P) : (e.filterMap f).Raises P :=
  ⟨h.of_fault, h.of_none⟩

end Raises

theorem mem_of_fault_ofOutcomes {l : List (Except ε Match)} {fault : ε}
    (h : (ofOutcomes l).fault = some fault) : .error fault ∈ l := by
  induction l with
  | nil => cases h
  | cons o rest ih =>
    cases o with
    | error other =>
      obtain rfl := Option.some.inj h
      exact .head _
    | ok found => exact .tail _ (ih h)

/-- A search for all outcomes of a tree ends early exactly if a fault is among them. -/
theorem Lists.raises {R : List Nat → Except ε Match → Prop} {e : Emission ε} (h : Lists R e) :
    e.Raises fun fault => ∃ a, R a (.error fault) := by
  obtain ⟨l, hl, rfl⟩ := h
  constructor
  · intro fault hfault
    obtain ⟨⟨a, o⟩, hmem, rfl⟩ := List.mem_map.1 (mem_of_fault_ofOutcomes hfault)
    exact ⟨a, (hl.mem_iff a _).1 hmem⟩
  · rintro hnone fault ⟨a, ha⟩
    have hmem : Except.error fault ∈ l.map Prod.snd :=
      List.mem_map.2 ⟨_, (hl.mem_iff a _).2 ha, rfl⟩
    rw [eq_map_ok_of_fault_eq_none hnone] at hmem
    obtain ⟨found, -, heq⟩ := List.mem_map.1 hmem
    cases heq

end Emission

/-! ## Names of users -/

theorem mem_userNames_iff {name : String} : Text.ofString name ∈ userNames ↔
    name ∈ ["MemberExpression", "CallExpression", "NewExpression", "AssignmentExpression",
      "AssignmentPattern",
      "VariableDeclarator"] := Text.ofString_mem_map

/-- What has the name of a form that uses a value and not its parts is of a form that nothing is
known of. -/
theorem Form.eq_other_of_mem_userNames {f : Form} (h : f.name ∈ userNames)
    (huser : f.isUser = false) : ∃ name children, f = .other name children := by
  cases f with
  | other name children => exact ⟨name, children, rfl⟩
  | member | call | construct | assignment | assignmentPattern | variableDeclarator => cases huser
  | forEach iteration => cases iteration <;> simp [Form.name, mem_userNames_iff] at h
  | function placement | classLike placement =>
    cases placement <;> simp [Form.name, mem_userNames_iff] at h
  | jump kind => cases kind <;> simp [Form.name, mem_userNames_iff] at h
  | binary left operator right =>
    simp only [Form.name] at h
    split at h <;> simp [mem_userNames_iff] at h
  | _ => simp [Form.name, mem_userNames_iff] at h

/-! ## Where the strategies begin -/

theorem Traced.fault_report {ι ε : Type} (v : Traced ι) (use : Use) (site : Site)
    (via : List VariableId) :
    (v.report use site via : Emission ε).fault = none := by
  rw [Traced.report]
  split <;> rfl

namespace Tracer

variable {ι κ : Type}

/-- A variable to which a specifier binds the module `v` or something that it exports. -/
inductive SpecifierEnters (t : Tracer) (specifier : Site) (v : Traced κ) :
    VariableId → Traced κ → Prop where
  | exported {binding key w x} (himports : Imports specifier binding key)
      (hw : v.child? key = some w)
      (hx : t.Binds binding x) : SpecifierEnters t specifier v x w
  | whole {binding x} (hf : specifier.node.form = .importNamespace binding)
      (hx : t.Binds binding x) :
      SpecifierEnters t specifier v x v

/-- A mention that reads a `require` which the program does not declare. -/
def IsRequire (t : Tracer) (r : Reference) : Prop :=
  ∃ x, t.graph.undeclared? requireName = some x ∧ r ∈ t.graph.readsOf x

/-- A mention that is the function of a call, with the arguments of the call. -/
structure Calls (r : Reference) (call : Site) (arguments : List Node) : Prop where
  parent : r.mention.identifier.parent? = some call
  role : r.mention.identifier.role? = some .callee
  form : ∃ callee optional, call.node.form = .call callee arguments optional

/-- The states in which a strategy begins to follow a value. A module that has not the shape of an
ECMAScript module is seen through its default export. -/
inductive Enters (t : Tracer) (mode : Mode) (names : List Text) (m : TraceMap ι) :
    Strategy → {κ : Type} → FlowState κ → Prop where
  | global {key x child} (hchild : m.child? key = some child)
      (hx : t.graph.undeclared? key = some x) :
      Enters t mode names m .globals ⟨.variable x true, ⟨[key], child⟩, []⟩
  | globalObject {name x} (hname : name ∈ names) (hx : t.graph.undeclared? name = some x) :
      Enters t mode names m .globals ⟨.variable x false, ⟨[], m⟩, []⟩
  | require {r call arguments key v} (hr : t.IsRequire r) (hcall : Calls r call arguments)
      (hkey : t.firstArgument? arguments = .ok (some key))
      (hv : Traced.child? ⟨[], m⟩ key = some v) :
      Enters t mode names m .cjs ⟨.expression call, v, []⟩
  | esm {declaration v i n x w} (hdeclaration : declaration ∈ t.statements)
      (hv : moduleRoot? m declaration = .ok (some v)) (hesm : v.map.isEsm = true)
      (hn : (n, i) ∈ (specifiers declaration.node.form).zipIdx)
      (hx : t.SpecifierEnters (declaration.down ⟨.specifiers, i⟩ n) v x w) :
      Enters t mode names m .esm ⟨.variable x false, w, []⟩
  | wrapped {declaration v i n x w} (hdeclaration : declaration ∈ t.statements)
      (hv : moduleRoot? m declaration = .ok (some v)) (hesm : v.map.isEsm = false)
      (hn : (n, i) ∈ (specifiers declaration.node.form).zipIdx)
      (hx : t.SpecifierEnters (declaration.down ⟨.specifiers, i⟩ n)
        ⟨v.path, v.map.asDefaultExport (mode = .legacy)⟩ x w) :
      Enters t mode names m .esm ⟨.variable x false, w, []⟩

/-- A fault that a flow from a state comes to without entering a variable twice. -/
def Stalls (t : Tracer) (s : FlowState κ) (fault : ConstantFault) : Prop :=
  ∃ a, t.Occurs s a (.error fault)

/-- What ends a strategy early. -/
inductive Stops (t : Tracer) (mode : Mode) (names : List Text) (m : TraceMap ι) :
    Strategy → ConstantFault → Prop where
  /-- A value that is followed comes to a fault. -/
  | value {strategy fault} {κ : Type} {s : FlowState κ} (hs : t.Enters mode names m strategy s)
      (h : t.Stalls s fault) : Stops t mode names m strategy fault
  /-- The argument of a call of `require` has no text. -/
  | argument {r call arguments fault} (hr : t.IsRequire r) (hcall : Calls r call arguments)
      (h : t.firstArgument? arguments = .error fault) : Stops t mode names m .cjs fault
  /-- What is around a `require` has the name of a call and not its parts. -/
  | call {r call children} (hr : t.IsRequire r) (hcall : r.mention.identifier.parent? = some call)
      (hform : call.node.form = .other (Text.ofString "CallExpression") children) :
      Stops t mode names m .cjs .missingPart
  /-- What a declaration names as its module can be none. -/
  | source {declaration fault} (hdeclaration : declaration ∈ t.statements)
      (h : moduleRoot? m declaration = .error fault) : Stops t mode names m .esm fault

variable {t : Tracer} {mode : Mode} {names : List Text} {m : TraceMap ι}

theorem follow_raises {s : FlowState κ} (hs : t.Knows s.place) (hvia : s.via.Nodup) :
    (t.follow s).Raises (t.Stalls s) :=
  (follow_lists hs hvia).raises

theorem enter_raises {x : VariableId} (hx : x ∈ t.graph.variableIds) (announced : Bool)
    (v : Traced κ) :
    (t.enter [] announced x v).Raises (t.Stalls ⟨.variable x announced, v, []⟩) :=
  (enter_lists .nil announced hx v).raises

/-! ## Globals -/

theorem globalMatches_raises :
    (t.globalMatches names m).Raises (t.Stops mode names m .globals) := by
  have hglobals := Emission.Raises.concatMap (l := t.globalRoots m)
    (f := fun p => t.enter [] true p.2.1 ⟨[p.1], p.2.2⟩)
    (R := fun p => t.Stalls ⟨.variable p.2.1 true, ⟨[p.1], p.2.2⟩, []⟩)
    fun p hroot => enter_raises (ScopeGraph.undeclared?_mem (mem_globalRoots.1 hroot).2) true _
  have hobjects := Emission.Raises.concatMap (l := t.globalObjectRoots names)
    (f := fun p => t.enter [] false p.2 ⟨[], m⟩)
    (R := fun p => t.Stalls ⟨.variable p.2 false, ⟨[], m⟩, []⟩)
    fun p hroot => enter_raises
      (ScopeGraph.undeclared?_mem (mem_globalObjectRoots.1 hroot).2) false _
  refine (hglobals.append hobjects).congr fun fault => ?_
  constructor
  · rintro (⟨⟨key, x, child⟩, hroot, h⟩ | ⟨⟨name, x⟩, hroot, h⟩)
    · obtain ⟨hchild, hx⟩ := mem_globalRoots.1 hroot
      exact .value (.global hchild hx) h
    · obtain ⟨hname, hx⟩ := mem_globalObjectRoots.1 hroot
      exact .value (.globalObject hname hx) h
  · intro hstops
    cases hstops with
    | value hs h =>
      cases hs with
      | global hchild hx => exact .inl ⟨(_, _, _), mem_globalRoots.2 ⟨hchild, hx⟩, h⟩
      | globalObject hname hx => exact .inr ⟨(_, _), mem_globalObjectRoots.2 ⟨hname, hx⟩, h⟩

/-! ## Calls of `require` -/

/-- What is called a call is one, or it is of a form that nothing is known of. -/
theorem eq_call_or_other {f : Form} (h : f.name = Text.ofString "CallExpression") :
    (∃ callee arguments optional, f = .call callee arguments optional) ∨
      ∃ children, f = .other (Text.ofString "CallExpression") children := by
  have hname : f.name ∈ userNames := by
    rw [h, mem_userNames_iff]
    simp
  cases huser : f.isUser with
  | false =>
    obtain ⟨name, children, rfl⟩ := Form.eq_other_of_mem_userNames hname huser
    obtain rfl : name = _ := h
    exact .inr ⟨children, rfl⟩
  | true =>
    cases f with
    | call callee arguments optional => exact .inl ⟨callee, arguments, optional, rfl⟩
    | member | construct | assignment | assignmentPattern | variableDeclarator =>
      simp [Form.name, Text.ofString_inj] at h
    | _ => cases huser

theorem Calls.unique {r : Reference} {call call' : Site} {arguments arguments' : List Node}
    (h : Calls r call arguments) (h' : Calls r call' arguments') :
    call = call' ∧ arguments = arguments' := by
  obtain rfl : call = call' := Option.some.inj (h.parent.symm.trans h'.parent)
  obtain ⟨callee, optional, hform⟩ := h.form
  obtain ⟨callee', optional', hform'⟩ := h'.form
  cases hform.symm.trans hform'
  exact ⟨rfl, rfl⟩

/-- A mention that is the function of a call is no child of a node without the parts of a call. -/
theorem Calls.ne_other {r : Reference} {call other : Site} {arguments : List Node}
    (h : Calls r call arguments) (hother : r.mention.identifier.parent? = some other) (name : Text)
    (children : List Node) :
    other.node.form ≠ .other name children := by
  intro heq
  obtain rfl : call = other := Option.some.inj (h.parent.symm.trans hother)
  obtain ⟨callee, optional, hform⟩ := h.form
  cases hform.symm.trans heq

/-- What ends the search at the function of a call. -/
theorem requireMatches_call_raises (call : Site) {arguments : List Node} :
    (Emission.withValue (t.firstArgument? arguments) fun key =>
      match Traced.child? ⟨[], m⟩ key with
      | none => .empty
      | some v =>
        v.report .read call [] ++ t.climb [] (t.enter [] false) call.above v).Raises fun fault =>
        t.firstArgument? arguments = .error fault ∨
          ∃ key, t.firstArgument? arguments = .ok (some key) ∧
          ∃ v, Traced.child? ⟨[], m⟩ key = some v ∧ t.Stalls ⟨.expression call, v, []⟩ fault := by
  apply Emission.Raises.withValue
  intro key _
  cases Traced.child? ⟨[], m⟩ key with
  | none => exact .empty (by simp)
  | some v =>
    have hclimb : (t.climb [] (t.enter [] false) call.above v).Raises
        (t.Stalls ⟨.expression call, v, []⟩) :=
      follow_raises (s := ⟨.expression call, v, []⟩) trivial .nil
    exact (hclimb.append_right (v.fault_report ..)).congr (by simp)

/-- What ends the search at one mention of `require`. -/
def RequireStops (t : Tracer) (m : TraceMap ι) (r : Reference) (fault : ConstantFault) : Prop :=
  (∃ call arguments, Calls r call arguments ∧ (t.firstArgument? arguments = .error fault ∨
    ∃ key, t.firstArgument? arguments = .ok (some key) ∧
      ∃ v, Traced.child? ⟨[], m⟩ key = some v ∧ t.Stalls ⟨.expression call, v, []⟩ fault)) ∨
  ∃ call children, r.mention.identifier.parent? = some call ∧
    call.node.form = .other (Text.ofString "CallExpression") children ∧ fault = .missingPart

theorem requireMatches_raises {r : Reference} (hreads : r.mention.access.reads = true) :
    (t.requireMatches m r).Raises (t.RequireStops m r) := by
  unfold requireMatches
  split
  · rename_i habove
    have hparent : r.mention.identifier.parent? = none := by rw [Site.parent?, habove]
    apply Emission.Raises.empty
    rintro fault (⟨call, arguments, hcalls, -⟩ | ⟨call, children, hcall, -⟩)
    · cases hparent.symm.trans hcalls.parent
    · cases hparent.symm.trans hcall
  · rename_i frame above habove
    let call : Site := ⟨frame.parent, above⟩
    have hparent : r.mention.identifier.parent? = some call := by rw [Site.parent?, habove]
    have hrole : r.mention.identifier.role? = some frame.slot.role := by
      rw [Site.role?, habove]
      rfl
    rw [hreads, if_neg (by simp)]
    -- The parent is a call, has the name of a call, or is no call at all.
    split
    · rename_i callee arguments optional hform
      split
      · rename_i hcallee
        have hcalls : Calls r call arguments :=
          ⟨hparent, hrole.trans (congrArg some hcallee), callee, optional, hform⟩
        refine (requireMatches_call_raises call).congr fun fault => ?_
        constructor
        · intro h
          exact .inl ⟨call, arguments, hcalls, h⟩
        · rintro (⟨call', arguments', hcalls', h⟩ | ⟨other, children, hother, hform', -⟩)
          · obtain ⟨rfl, rfl⟩ := hcalls.unique hcalls'
            exact h
          · exact absurd hform' (hcalls.ne_other hother _ _)
      · rename_i hcallee
        apply Emission.Raises.empty
        rintro fault (⟨call', arguments', hcalls, -⟩ | ⟨other, children, hother, hform', -⟩)
        · exact hcallee (Option.some.inj (hrole.symm.trans hcalls.role))
        · obtain rfl : call = other := Option.some.inj (hparent.symm.trans hother)
          cases hform.symm.trans hform'
    · rename_i hnot
      split
      · rename_i hname
        rcases eq_call_or_other hname with ⟨callee, arguments, optional, hform⟩ | ⟨children, hform⟩
        · exact absurd hform (hnot callee arguments optional)
        · refine (Emission.Raises.fail _).congr fun fault => ?_
          constructor
          · intro h
            exact .inr ⟨call, children, hparent, hform, h⟩
          · rintro (⟨call', arguments', hcalls, -⟩ | ⟨other, children', hother, hform', h⟩)
            · exact absurd hform (hcalls.ne_other hparent _ _)
            · exact h
      · rename_i hname
        apply Emission.Raises.empty
        rintro fault (⟨call', arguments', hcalls, -⟩ | ⟨other, children, hother, hform', -⟩)
        · obtain ⟨callee, optional, hform⟩ := hcalls.form
          obtain rfl : call = call' := Option.some.inj (hparent.symm.trans hcalls.parent)
          exact hnot _ _ _ hform
        · obtain rfl : call = other := Option.some.inj (hparent.symm.trans hother)
          apply hname
          show call.node.form.name = _
          rw [hform']
          rfl

theorem requireMatches_of_not_reads {r : Reference} (hreads : r.mention.access.reads = false) :
    t.requireMatches m r = .empty := by
  unfold requireMatches
  split
  · rfl
  · rw [hreads]
    rfl

theorem cjsMatches_raises : (t.cjsMatches m).Raises (t.Stops mode names m .cjs) := by
  unfold cjsMatches
  split
  · rename_i hnone
    have hrequire : ∀ r, ¬ t.IsRequire r := by
      rintro r ⟨x, hx, -⟩
      cases hnone.symm.trans hx
    apply Emission.Raises.empty
    intro fault hstops
    cases hstops with
    | value hs h =>
      cases hs with
      | require hr => exact hrequire _ hr
    | argument hr | call hr => exact hrequire _ hr
  · rename_i x hx
    have hraises :=
      Emission.Raises.concatMap (l := t.graph.referencesOf x) (f := t.requireMatches m)
      (R := fun r fault => r.mention.access.reads = true ∧ t.RequireStops m r fault) fun r _ => by
        cases hreads : r.mention.access.reads with
        | false =>
          rw [requireMatches_of_not_reads hreads]
          exact .empty (by simp)
        | true => exact (requireMatches_raises hreads).congr (by simp)
    refine hraises.congr fun fault => ?_
    constructor
    · rintro ⟨r, hr, hreads, hstops⟩
      have hrequire : t.IsRequire r := ⟨x, hx, List.mem_filter.2 ⟨hr, hreads⟩⟩
      rcases hstops with ⟨call, arguments, hcalls, h | ⟨key, hkey, v, hv, h⟩⟩ |
        ⟨call, children, hcall, hform, rfl⟩
      · exact .argument hrequire hcalls h
      · exact .value (.require hrequire hcalls hkey hv) h
      · exact .call hrequire hcall hform
    · have hmem : ∀ {r}, t.IsRequire r → r ∈ t.graph.referencesOf x ∧
          r.mention.access.reads = true := by
        rintro r ⟨y, hy, hr⟩
        cases hx.symm.trans hy
        exact List.mem_filter.1 hr
      intro hstops
      cases hstops with
      | value hs h =>
        cases hs with
        | require hr hcalls hkey hv =>
          obtain ⟨hr, hreads⟩ := hmem hr
          exact ⟨_, hr, hreads, .inl ⟨_, _, hcalls, .inr ⟨_, hkey, _, hv, h⟩⟩⟩
      | argument hr hcalls h =>
        obtain ⟨hr, hreads⟩ := hmem hr
        exact ⟨_, hr, hreads, .inl ⟨_, _, hcalls, .inl h⟩⟩
      | call hr hcall hform =>
        obtain ⟨hr, hreads⟩ := hmem hr
        exact ⟨_, hr, hreads, .inr ⟨_, _, hcall, hform, rfl⟩⟩

/-! ## Import and export declarations -/

theorem Imports.unique {specifier : Site} {binding binding' : Node} {key key' : Text}
    (h : Imports specifier binding key) (h' : Imports specifier binding' key') :
    binding = binding' ∧ key = key' := by
  cases h with
  | default hf =>
    cases h' with
    | default hf' =>
      cases hf.symm.trans hf'
      exact ⟨rfl, rfl⟩
    | named hf' => cases hf.symm.trans hf'
  | named hf hkey =>
    cases h' with
    | default hf' => cases hf.symm.trans hf'
    | named hf' hkey' =>
      cases hf.symm.trans hf'
      cases hkey.symm.trans hkey'
      exact ⟨rfl, rfl⟩

/-- A name that modules exchange can be asked for. -/
theorem exists_exportName? {n : Node} (h : n.isModuleName = true) :
    ∃ key, exportName? n = .ok (some key) := by
  obtain ⟨span, f⟩ := n
  cases f with
  | identifier name => exact ⟨name, rfl⟩
  | literal value raw =>
    cases value with
    | string name => exact ⟨name, rfl⟩
    | _ => cases h
  | _ => cases h

theorem importBinding_raises {binding : Node} (hname : binding.form.identifierName?.isSome = true)
    (v : Traced κ) : (t.importBinding binding v).Raises fun fault =>
      ∃ x, t.Binds binding x ∧ t.Stalls ⟨.variable x false, v, []⟩ fault := by
  obtain ⟨name, hname⟩ := Option.isSome_iff_exists.1 hname
  cases hx : t.graph.findVariable? binding.start name with
  | none =>
    have hempty : t.importBinding binding v = .empty := by simp only [importBinding, hname, hx]
    rw [hempty]
    apply Emission.Raises.empty
    rintro fault ⟨x, ⟨name', hname', hx'⟩, -⟩
    cases hname.symm.trans hname'
    cases hx.symm.trans hx'
  | some x =>
    have hbinds : t.Binds binding x := ⟨name, hname, hx⟩
    rw [hbinds.importBinding]
    refine (enter_raises hbinds.mem false v).congr fun fault => ?_
    constructor
    · intro h
      exact ⟨x, hbinds, h⟩
    · rintro ⟨x', ⟨name', hname', hx'⟩, h⟩
      cases hname.symm.trans hname'
      cases hx.symm.trans hx'
      exact h

/-- A specifier that imports an export. -/
theorem Imports.raises {specifier : Site} {binding : Node} {key : Text}
    (himports : Imports specifier binding key) (hname : binding.form.identifierName?.isSome = true)
    (v : Traced κ) :
    (t.specifierMatches specifier v).Raises fun fault =>
      ∃ x w, t.SpecifierEnters specifier v x w ∧ t.Stalls ⟨.variable x false, w, []⟩ fault := by
  have hcases : ∀ {x w}, t.SpecifierEnters specifier v x w → v.child? key = some w ∧
      t.Binds binding x := by
    intro x w henters
    cases henters with
    | exported himports' hw hx =>
      obtain ⟨rfl, rfl⟩ := himports.unique himports'
      exact ⟨hw, hx⟩
    | whole hf =>
      cases himports with
      | default hf' | named hf' => cases hf.symm.trans hf'
  rw [himports.specifierMatches]
  cases hw : v.child? key with
  | none =>
    apply Emission.Raises.empty
    rintro fault ⟨x, w, henters, -⟩
    cases hw.symm.trans (hcases henters).1
  | some w =>
    refine ((importBinding_raises hname w).append_right (w.fault_report ..)).congr fun fault => ?_
    constructor
    · rintro ⟨x, hx, h⟩
      exact ⟨x, w, .exported himports hw hx, h⟩
    · rintro ⟨x, w', henters, h⟩
      obtain ⟨hw', hx⟩ := hcases henters
      cases hw.symm.trans hw'
      exact ⟨x, hx, h⟩

/-- A specifier that imports the module as a whole. -/
theorem specifierMatches_whole_raises {specifier : Site} {binding : Node}
    (hf : specifier.node.form = .importNamespace binding)
    (hname : binding.form.identifierName?.isSome = true) (v : Traced κ) :
    (t.specifierMatches specifier v).Raises fun fault =>
      ∃ x w, t.SpecifierEnters specifier v x w ∧ t.Stalls ⟨.variable x false, w, []⟩ fault := by
  have hwhole : t.specifierMatches specifier v = t.importBinding binding v := by
    simp only [specifierMatches, hf]
  rw [hwhole]
  refine (importBinding_raises hname v).congr fun fault => ?_
  constructor
  · rintro ⟨x, hx, h⟩
    exact ⟨x, v, .whole hf hx, h⟩
  · rintro ⟨x, w, henters, h⟩
    cases henters with
    | exported himports =>
      cases himports with
      | default hf' | named hf' => cases hf.symm.trans hf'
    | whole hf' hx =>
      cases hf.symm.trans hf'
      exact ⟨x, hx, h⟩

section Specifier

variable {shapes : Text → Bool} {specifier : Site}

/-- A specifier that imports nothing is read at most. -/
theorem fault_specifierMatches (hshape : specifier.node.form.hasShape shapes = true) (v : Traced κ)
    (hnamed : ∀ imported binding, specifier.node.form ≠ .importSpecifier imported binding)
    (hdefault : ∀ binding, specifier.node.form ≠ .importDefault binding)
    (hwhole : ∀ binding, specifier.node.form ≠ .importNamespace binding) :
    (t.specifierMatches specifier v).fault = none := by
  unfold specifierMatches
  split
  · rename_i hf
    exact absurd hf (hnamed _ _)
  · rename_i hf
    exact absurd hf (hdefault _)
  · rename_i hf
    exact absurd hf (hwhole _)
  · rename_i binding exported hf
    rw [hf] at hshape
    obtain ⟨key, hkey⟩ := exists_exportName? (Bool.and_eq_true_iff.1 hshape).1
    simp only [hkey, Emission.withValue]
    split
    · rfl
    · exact Traced.fault_report ..
  · rfl

theorem specifierMatches_raises (hshape : specifier.node.form.hasShape shapes = true)
    (v : Traced κ) :
    (t.specifierMatches specifier v).Raises fun fault =>
      ∃ x w, t.SpecifierEnters specifier v x w ∧ t.Stalls ⟨.variable x false, w, []⟩ fault := by
  by_cases hnamed : ∃ imported binding, specifier.node.form = .importSpecifier imported binding
  · obtain ⟨imported, binding, hf⟩ := hnamed
    rw [hf] at hshape
    obtain ⟨himported, hbinding⟩ := Bool.and_eq_true_iff.1 hshape
    obtain ⟨key, hkey⟩ := exists_exportName? himported
    exact (Imports.named hf hkey).raises hbinding v
  by_cases hdefault : ∃ binding, specifier.node.form = .importDefault binding
  · obtain ⟨binding, hf⟩ := hdefault
    rw [hf] at hshape
    exact (Imports.default hf).raises hshape v
  by_cases hwhole : ∃ binding, specifier.node.form = .importNamespace binding
  · obtain ⟨binding, hf⟩ := hwhole
    rw [hf] at hshape
    exact specifierMatches_whole_raises hf hshape v
  simp only [not_exists] at hnamed hdefault hwhole
  apply Emission.Raises.of_fault_eq_none (fault_specifierMatches hshape v hnamed hdefault hwhole)
  rintro fault ⟨x, w, henters, -⟩
  cases henters with
  | exported himports =>
    cases himports with
    | default hf => exact hdefault _ hf
    | named hf => exact hnamed _ _ hf
  | whole hf => exact hwhole _ hf

end Specifier

section Declaration

variable {shapes : Text → Bool}

theorem shaped_of_mem_specifiers {declaration : Node} (h : declaration.Shaped shapes) {n : Node}
    (hn : n ∈ specifiers declaration.form) : n.Shaped shapes := by
  obtain @⟨span, f, -, parts⟩ := h
  cases f with
  | importDeclaration ns source | exportNamed _ ns source =>
    exact parts (.all .specifiers ns) (by simp [Form.parts]) n (by rwa [Part.nodes_all])
  | _ => cases hn

/-- What ends the search for the names of a declaration, where the module is seen as `v`. -/
def SpecifiersStop (t : Tracer) (declaration : Site) (v : Traced κ)
    (fault : ConstantFault) : Prop :=
  ∃ p ∈ (specifiers declaration.node.form).zipIdx, ∃ x w,
    t.SpecifierEnters (declaration.down ⟨.specifiers, p.2⟩ p.1) v x w ∧
      t.Stalls ⟨.variable x false, w, []⟩ fault

theorem specifiersMatches_raises {declaration : Site} (h : declaration.node.Shaped shapes)
    (v : Traced κ) :
    (t.specifiersMatches declaration v).Raises (t.SpecifiersStop declaration v) := by
  apply Emission.Raises.concatMap
  intro p hp
  exact specifierMatches_raises (shaped_of_mem_specifiers h (List.fst_mem_of_mem_zipIdx hp)).shape v

/-- What ends the search for the names of a declaration of the module `v`. -/
def DeclarationStops (t : Tracer) (mode : Mode) (declaration : Site) (v : Traced ι)
    (fault : ConstantFault) :
    Prop :=
  v.map.isEsm = true ∧ t.SpecifiersStop declaration v fault ∨
    v.map.isEsm = false ∧
      t.SpecifiersStop declaration ⟨v.path, v.map.asDefaultExport (mode = .legacy)⟩ fault

theorem declarationMatches_raises {declaration : Site} (h : declaration.node.Shaped shapes)
    (v : Traced ι) :
    (t.declarationMatches mode declaration v).Raises (t.DeclarationStops mode declaration v) := by
  apply Emission.Raises.append_right _ (v.fault_report ..)
  split
  · rename_i exported source hf
    -- What is exported as a whole has no names, and all of it is read at most.
    have hnone : ∀ {κ : Type} (w : Traced κ) fault, ¬ t.SpecifiersStop declaration w fault := by
      rintro κ w fault ⟨p, hp, -⟩
      rw [hf] at hp
      cases hp
    have hreports := Emission.Raises.concatMap (l := v.map.children)
      (f := fun p => Traced.report ⟨v.path ++ [p.1], p.2⟩ .read declaration [])
      (R := fun _ (_ : ConstantFault) => False) fun _ _ => .of_fault_eq_none
        (Traced.fault_report ..) fun _ => id
    refine hreports.congr fun fault => ?_
    simp [DeclarationStops, hnone]
  · split
    · rename_i hesm
      exact (specifiersMatches_raises h v).congr (by simp [DeclarationStops, hesm])
    · rename_i hesm
      exact ((specifiersMatches_raises h _).filterMap _).congr (by simp [DeclarationStops, hesm])

/-- The statements of a shaped program are shaped. -/
theorem shaped_of_mem_statements (h : t.graph.program.Shaped shapes) {s : Site}
    (hs : s ∈ t.statements) :
    s.node.Shaped shapes := by
  unfold statements at hs
  split at hs
  · rename_i body sourceType hform
    obtain ⟨⟨n, i⟩, hn, rfl⟩ := List.mem_map.1 hs
    refine h.parts (.all .body body) (by simp [hform, Form.parts]) n ?_
    rw [Part.nodes_all]
    exact List.fst_mem_of_mem_zipIdx hn
  · cases hs

theorem esmMatches_raises (hshaped : t.graph.program.Shaped shapes) :
    (t.esmMatches mode m).Raises (t.Stops mode names m .esm) := by
  have hraises : (t.esmMatches mode m).Raises fun fault => ∃ s ∈ t.statements,
      moduleRoot? m s = .error fault ∨
        ∃ v, moduleRoot? m s = .ok (some v) ∧ t.DeclarationStops mode s v fault :=
    .concatMap fun s hs => .withValue fun v _ =>
      declarationMatches_raises (shaped_of_mem_statements hshaped hs) v
  refine hraises.congr fun fault => ?_
  constructor
  · rintro ⟨s, hs, h | ⟨v, hv, ⟨hesm, ⟨n, i⟩, hn, x, w, hx, h⟩ | ⟨hesm, ⟨n, i⟩, hn, x, w, hx, h⟩⟩⟩
    · exact .source hs h
    · exact .value (.esm hs hv hesm hn hx) h
    · exact .value (.wrapped hs hv hesm hn hx) h
  · intro hstops
    cases hstops with
    | value hs h =>
      cases hs with
      | esm hs hv hesm hn hx => exact ⟨_, hs, .inr ⟨_, hv, .inl ⟨hesm, _, hn, _, _, hx, h⟩⟩⟩
      | wrapped hs hv hesm hn hx => exact ⟨_, hs, .inr ⟨_, hv, .inr ⟨hesm, _, hn, _, _, hx, h⟩⟩⟩
    | source hs h => exact ⟨_, hs, .inl h⟩

/-- **A strategy ends early exactly if something stops it**, in a program that comes of reading. -/
theorem strategyMatches_raises (hshaped : t.graph.program.Shaped shapes) (strategy : Strategy) :
    (t.strategyMatches mode names m strategy).Raises (t.Stops mode names m strategy) := by
  cases strategy with
  | globals => exact globalMatches_raises
  | cjs => exact cjsMatches_raises
  | esm => exact esmMatches_raises hshaped

end Declaration

end Tracer

end ApiTrace
