import ApiTrace.Proofs.TraceMap.Documents
import ApiTrace.Proofs.TraceMap.Validation

/-!
# The form of documents

With a validator that keeps its laws, a document is a trace map exactly if it follows the schema
(`Document.violations_eq_nil_iff`). Otherwise everything that is wrong with it is listed
(`Document.lists_violations`): every place that offends is listed once, and the list is in the order
of the document. A place has an address for this, the ranks of the members on the way to it, and
addresses are compared like words.

The schema and the places that offend are said here in terms of documents alone. What the validator
is told is `Document.nodeType`.
-/

namespace ApiTrace.Document

open Validator (Spells)

variable {offset : Nat} {node document : Json} {members nodes : List (Text × Json)}

/-! ## The schema -/

/-- The names that the members of a node can have. -/
def memberNames : List Text := ["read", "call", "construct", "esm", "properties"].map Text.ofString

/-- The nodes in a node, with the ranks and the names of the members that lead to them. -/
inductive LeadsTo : Json → List Nat → List Text → Json → Prop where
  | here (node : Json) : LeadsTo node [] [] node
  | step {node child last : Json} {nodes : List (Text × Json)} {i : Nat} {name : Text}
      {ranks : List Nat} {place : List Text}
      (hnodes : node.member? "properties" = some (.object nodes))
      (hi : nodes[i]? = some (name, child)) (hrest : LeadsTo child ranks place last) :
      LeadsTo node (4 :: i :: ranks) ("properties" :: name :: place) last

/-- The nodes of a document. -/
inductive NodeAt : Json → List Nat → List Text → Json → Prop where
  | mk {roots : List (Text × Json)} {i : Nat} {name : Text} {root node : Json} {ranks : List Nat}
      {place : List Text} (hi : roots[i]? = some (name, root)) (h : LeadsTo root ranks place node) :
      NodeAt (.object roots) (i :: ranks) (name :: place) node

/-- The form of a node by itself: an object with no other members than those of a node, a flag that
spells a boolean, and properties that are an object. -/
inductive IsNode : Json → Prop where
  | mk {members : List (Text × Json)} (names : ∀ p ∈ members, p.1 ∈ memberNames)
      (esm : ∀ v, (Json.object members).member? "esm" = some v → ∃ b, Spells v b)
      (properties : ∀ v, (Json.object members).member? "properties" = some v →
        ∃ nodes, v = .object nodes) : IsNode (.object members)

/-- The form of a document: an object of nodes, whose properties are nodes. -/
structure FollowsSchema (document : Json) : Prop where
  roots : ∃ roots, document = .object roots
  nodes : ∀ ranks place node, NodeAt document ranks place node → IsNode node

/-! ## Places that offend -/

/-- A place in a node or a document: its address and the names that lead to it. -/
structure Offence where
  address : List Nat
  place : List Text

/-- A place in a value that lies in another value, as one of that value. -/
def Offence.under (rank : Nat) (name : Text) (o : Offence) : Offence :=
  ⟨rank :: o.address, name :: o.place⟩

/-- What offends in a node by itself. A flag has the rank 3 and properties have the rank 4, since
they are the fourth and the fifth of the members that a node can have; other members come after
these. -/
inductive OffendsItself : Json → Offence → Prop where
  | notAnObject {node : Json} (h : ∀ members, node ≠ .object members) : OffendsItself node ⟨[], []⟩
  | esm {node v : Json} (hv : node.member? "esm" = some v) (h : ∀ b, ¬ Spells v b) :
      OffendsItself node ⟨[3], ["esm"]⟩
  | properties {node v : Json} (hv : node.member? "properties" = some v)
      (h : ∀ nodes, v ≠ .object nodes) : OffendsItself node ⟨[4], ["properties"]⟩
  | unknown {members : List (Text × Json)} {i : Nat} {name : Text} {v : Json}
      (hi : members[i]? = some (name, v)) (hname : name ∉ memberNames) :
      OffendsItself (.object members) ⟨[5 + i], [name]⟩

/-- What offends in a document: the document itself, or something in one of its nodes. -/
inductive Offends (document : Json) : Offence → Prop where
  | root (h : ∀ roots, document ≠ .object roots) : Offends document ⟨[], []⟩
  | node {ranks : List Nat} {place : List Text} {node : Json} {o : Offence}
      (hnode : NodeAt document ranks place node) (ho : OffendsItself node o) :
      Offends document ⟨ranks ++ o.address, place ++ o.place⟩

/-- Whether some violations are those of exactly the places that offend, in the order of their
addresses, and so none twice. -/
def Lists (P : Offence → Prop) (found : List Violation) : Prop :=
  ∃ offences : List Offence, found.map Violation.place = offences.map Offence.place ∧
    (∀ o, o ∈ offences ↔ P o) ∧ offences.Pairwise fun o o' => o.address < o'.address

namespace Lists

variable {P Q R : Offence → Prop} {found found' : List Violation}

theorem nil (h : ∀ o, ¬ P o) : Lists P [] :=
  ⟨[], rfl, by simpa using h, .nil⟩

theorem singleton {x : Offence} {kind : ViolationKind} (h : ∀ o, P o ↔ o = x) :
    Lists P [⟨x.place, kind⟩] :=
  ⟨[x], rfl, by simpa using fun o => (h o).symm, List.pairwise_singleton _ _⟩

theorem congr (hP : Lists P found) (hQ : ∀ o, Q o ↔ P o) : Lists Q found := by
  obtain ⟨os, hfound, hos, hsorted⟩ := hP
  exact ⟨os, hfound, fun o => (hos o).trans (hQ o).symm, hsorted⟩

theorem eq_nil_iff (hP : Lists P found) : found = [] ↔ ∀ o, ¬ P o := by
  obtain ⟨os, hfound, hos, -⟩ := hP
  rw [← List.map_eq_nil_iff, hfound, List.map_eq_nil_iff, List.eq_nil_iff_forall_not_mem]
  exact forall_congr' fun o => not_congr (hos o)

theorem append (hP : Lists P found) (hQ : Lists Q found')
    (hlt : ∀ o o', P o → Q o' → o.address < o'.address) (hR : ∀ o, R o ↔ P o ∨ Q o) :
    Lists R (found ++ found') := by
  obtain ⟨os, hfound, hos, hsorted⟩ := hP
  obtain ⟨os', hfound', hos', hsorted'⟩ := hQ
  refine ⟨os ++ os', ?_, ?_, ?_⟩
  · rw [List.map_append, List.map_append, hfound, hfound']
  · intro o
    rw [List.mem_append, hos, hos', hR]
  · refine List.pairwise_append.2 ⟨hsorted, hsorted', ?_⟩
    intro o ho o' ho'
    exact hlt o o' ((hos o).1 ho) ((hos' o').1 ho')

/-- What offends in a value that lies in another one offends in the other one. -/
theorem under (hP : Lists P found) (rank : Nat) (name : Text) :
    Lists (fun o => ∃ o', P o' ∧ o = o'.under rank name) (found.map (·.under name)) := by
  obtain ⟨os, hfound, hos, hsorted⟩ := hP
  refine ⟨os.map (·.under rank name), ?_, ?_, ?_⟩
  · have hplaces := congrArg (List.map (name :: ·)) hfound
    simpa [Violation.under, Offence.under, Function.comp_def] using hplaces
  · intro o
    simp only [List.mem_map, hos, eq_comm (a := o)]
  · rw [List.pairwise_map]
    refine hsorted.imp ?_
    intro o o' h
    exact List.cons_lt_cons_self.2 h

end Lists

/-! ## Nodes in nodes -/

theorem nodesBelow_of_member? (h : node.member? "properties" = some (.object nodes)) :
    nodesBelow node = nodes := by
  simp only [nodesBelow, h]

theorem sizeOf_lt_of_mem_nodesBelow {p : Text × Json} (h : p ∈ nodesBelow node) :
    sizeOf p.2 < sizeOf node := by
  unfold nodesBelow at h
  split at h
  · rename_i nodes hnodes
    cases node with
    | object members =>
      obtain ⟨l, l', hmembers, -⟩ := List.lookup_eq_some_iff.1 hnodes
      have hmember : (Text.ofString "properties", Json.object nodes) ∈ members := by simp [hmembers]
      have hp := List.sizeOf_lt_of_mem h
      have hq := List.sizeOf_lt_of_mem hmember
      obtain ⟨name, child⟩ := p
      simp only [Prod.mk.sizeOf_spec, Json.object.sizeOf_spec] at hp hq ⊢
      omega
    | _ => cases hnodes
  · cases h

/-- What holds of a node if it holds of the nodes below it holds of every node. -/
theorem node_induction {motive : Json → Prop}
    (h : ∀ node, (∀ p ∈ nodesBelow node, motive p.2) → motive node) (node : Json) :
    motive node := by
  induction hsize : sizeOf node using Nat.strongRecOn generalizing node with
  | _ size ih =>
    apply h
    intro p hp
    exact ih _ (hsize ▸ sizeOf_lt_of_mem_nodesBelow hp) p.2 rfl

/-- What offends in a node or in the nodes below it. -/
def OffendsIn (node : Json) (o : Offence) : Prop :=
  ∃ ranks place last o', LeadsTo node ranks place last ∧ OffendsItself last o' ∧
    o = ⟨ranks ++ o'.address, place ++ o'.place⟩

/-- Whether something holds of one of some members and its rank, where the first has the rank
`offset`. -/
def Ranked (P : Nat → Text × Json → Prop) (offset : Nat) (members : List (Text × Json)) : Prop :=
  ∃ i p, members[i]? = some p ∧ P (offset + i) p

theorem ranked_cons {P : Nat → Text × Json → Prop} {p : Text × Json} :
    Ranked P offset (p :: members) ↔ P offset p ∨ Ranked P (offset + 1) members := by
  constructor
  · rintro ⟨_ | i, q, hi, h⟩
    · cases hi
      exact .inl h
    · exact .inr ⟨i, q, hi, by rwa [Nat.add_right_comm]⟩
  · rintro (h | ⟨i, q, hi, h⟩)
    · exact ⟨0, p, rfl, h⟩
    · exact ⟨i + 1, q, hi, by rwa [Nat.add_right_comm] at h⟩

/-- What is listed for members one by one is listed for all of them, if the rank of a member is the
first in the addresses of what offends in it. -/
theorem lists_ranked {P : Offence → Nat → Text × Json → Prop}
    {found : Text × Json → List Violation}
    (haddress : ∀ {o rank p}, P o rank p → ∃ rest, o.address = rank :: rest)
    (h : ∀ p ∈ members, ∀ rank, Lists (P · rank p) (found p)) (offset : Nat) :
    Lists (fun o => Ranked (P o) offset members) (members.flatMap found) := by
  induction members generalizing offset with
  | nil =>
    refine .nil ?_
    rintro o ⟨i, p, hi, -⟩
    cases hi
  | cons p rest ih =>
    obtain ⟨hp, hrest⟩ := List.forall_mem_cons.1 h
    rw [List.flatMap_cons]
    refine (hp offset).append (ih hrest (offset + 1)) ?_ fun o => ranked_cons
    rintro o o' ho ⟨i, q, -, ho'⟩
    obtain ⟨_, haddr⟩ := haddress ho
    obtain ⟨_, haddr'⟩ := haddress ho'
    rw [haddr, haddr']
    exact List.cons_lt_cons_iff.2 (.inl (by omega))

/-- What offends in some nodes, of which the first has the rank `offset`. -/
def OffendsAmong (offset : Nat) (nodes : List (Text × Json)) (o : Offence) : Prop :=
  Ranked (fun rank p => ∃ o', OffendsIn p.2 o' ∧ o = o'.under rank p.1) offset nodes

theorem member?_of_no_object (h : ∀ members, node ≠ .object members) (name : Text) :
    node.member? name = none := by
  cases node with
  | object members => exact absurd rfl (h members)
  | _ => rfl

theorem offendsIn_iff_of_no_object (h : ∀ members, node ≠ .object members) {o : Offence} :
    OffendsIn node o ↔ o = ⟨[], []⟩ := by
  have hmember := member?_of_no_object h
  constructor
  · rintro ⟨ranks, place, last, o', hlast, ho', rfl⟩
    cases hlast with
    | here =>
      cases ho' with
      | notAnObject => rfl
      | esm hv | properties hv => cases hv.symm.trans (hmember _)
      | unknown => exact absurd rfl (h _)
    | step hnodes => cases hnodes.symm.trans (hmember _)
  · rintro rfl
    exact ⟨[], [], node, _, .here node, .notAnObject h, rfl⟩

theorem offendsIn_iff {o : Offence} : OffendsIn node o ↔ OffendsItself node o ∨
    ∃ nodes, node.member? "properties" = some (.object nodes) ∧
      ∃ o', OffendsAmong 0 nodes o' ∧ o = o'.under 4 "properties" := by
  constructor
  · rintro ⟨ranks, place, last, o', hlast, ho', rfl⟩
    cases hlast with
    | here => exact .inl ho'
    | step hnodes hi hrest =>
      refine .inr ⟨_, hnodes, _, ⟨_, _, hi, _, ⟨_, _, _, _, hrest, ho', rfl⟩, rfl⟩, ?_⟩
      simp [Offence.under]
  · rintro (ho | ⟨nodes, hnodes, _, ⟨i, ⟨name, child⟩, hi, _, hchild, rfl⟩, rfl⟩)
    · exact ⟨[], [], _, o, .here _, ho, rfl⟩
    · obtain ⟨_, _, _, _, hrest, ho', rfl⟩ := hchild
      refine ⟨_, _, _, _, .step hnodes hi hrest, ho', ?_⟩
      simp [Offence.under]

theorem offends_object_iff {roots : List (Text × Json)} {o : Offence} :
    Offends (.object roots) o ↔ OffendsAmong 0 roots o := by
  constructor
  · intro ho
    cases ho with
    | root h => exact absurd rfl (h roots)
    | node hnode ho =>
      cases hnode with
      | mk hi h => exact ⟨_, _, hi, _, ⟨_, _, _, _, h, ho, rfl⟩, by simp [Offence.under]⟩
  · rintro ⟨i, ⟨name, child⟩, hi, _, ⟨_, _, _, _, h, ho, rfl⟩, rfl⟩
    have hoffends := Offends.node (.mk hi h) ho
    simpa [Offence.under] using hoffends

/-- Members with unknown names, of which the first has the rank `offset`. -/
def HasUnknown (offset : Nat) (members : List (Text × Json)) (o : Offence) : Prop :=
  Ranked (fun rank p => p.1 ∉ memberNames ∧ o = ⟨[rank], [p.1]⟩) offset members

theorem lists_unknown (offset : Nat) (members : List (Text × Json)) :
    Lists (HasUnknown offset members)
      ((members.filter fun p => p.1 ∉ memberNames).map fun p => ⟨[p.1], .unknownMember⟩) := by
  have hflat : ((members.filter fun p => p.1 ∉ memberNames).map fun p =>
      (⟨[p.1], .unknownMember⟩ : Violation)) = members.flatMap fun p =>
        if p.1 ∉ memberNames then [⟨[p.1], .unknownMember⟩] else [] := by
    induction members with
    | nil => rfl
    | cons p rest ih =>
      rw [List.filter_cons, List.flatMap_cons, ← ih]
      split <;> simp_all
  rw [hflat]
  refine lists_ranked ?_ (fun p _ rank => ?_) offset
  · rintro o rank p ⟨-, rfl⟩
    exact ⟨[], rfl⟩
  · split
    · rename_i hname
      exact .singleton (x := ⟨[rank], [p.1]⟩) fun o => and_iff_right hname
    · rename_i hname
      exact .nil fun o ho => hname ho.1

/-- A flag that spells no boolean. -/
def HasBadFlag (node : Json) (o : Offence) : Prop :=
  ∃ v, node.member? "esm" = some v ∧ (∀ b, ¬ Spells v b) ∧ o = ⟨[3], ["esm"]⟩

/-- Properties that are no object, or in which something offends. -/
def HasBadProperties (node : Json) (o : Offence) : Prop :=
  (∃ v, node.member? "properties" = some v ∧ (∀ nodes, v ≠ .object nodes) ∧
    o = ⟨[4], ["properties"]⟩) ∨
  ∃ nodes, node.member? "properties" = some (.object nodes) ∧
    ∃ o', OffendsAmong 0 nodes o' ∧ o = o'.under 4 "properties"

theorem offendsIn_object_iff {o : Offence} : OffendsIn (.object members) o ↔
    (HasBadFlag (.object members) o ∨ HasBadProperties (.object members) o) ∨
      HasUnknown 5 members o := by
  rw [offendsIn_iff]
  constructor
  · rintro (ho | hbelow)
    · cases ho with
      | notAnObject h => exact absurd rfl (h members)
      | esm hv h => exact .inl (.inl ⟨_, hv, h, rfl⟩)
      | properties hv h => exact .inl (.inr (.inl ⟨_, hv, h, rfl⟩))
      | unknown hi hname => exact .inr ⟨_, _, hi, hname, rfl⟩
    · exact .inl (.inr (.inr hbelow))
  · rintro ((⟨v, hv, h, rfl⟩ | ⟨v, hv, h, rfl⟩ | hbelow) | ⟨i, ⟨name, v⟩, hi, hname, rfl⟩)
    · exact .inl (.esm hv h)
    · exact .inl (.properties hv h)
    · exact .inr hbelow
    · exact .inl (.unknown hi hname)

/-! ## What is listed -/

section Lawful

variable [V : Validator] (hV : V.Lawful)

include hV

/-- What the declaration of nodes comes to: payloads can be anything. -/
theorem violations_node (members : List (Text × Json)) :
    V.violations nodeType .record (.object members) =
      (((Json.object members).member? "esm").elim [] fun v =>
        (V.violations nodeType .boolean v).map (·.under "esm")) ++
      (((Json.object members).member? "properties").elim [] fun v =>
        (V.violations nodeType (.dictionary .record) v).map (·.under "properties")) ++
      (members.filter fun p => p.1 ∉ memberNames).map fun p => ⟨[p.1], .unknownMember⟩ := by
  have hpayload : ∀ name : Text, ((members.lookup name).elim [] fun v =>
      (V.violations nodeType .any v).map (·.under name)) = [] := by
    intro name
    cases members.lookup name with
    | none => rfl
    | some v => rw [Option.elim_some, hV.of_any, List.map_nil]
  have hunknown : ∀ name : Text, (nodeType.type? name).isNone = decide (name ∉ memberNames) := by
    intro name
    have hnames : memberNames = nodeType.fields.map Prod.fst := rfl
    rw [Bool.eq_iff_iff, Option.isNone_iff_eq_none, RecordType.type?, List.lookup_eq_none_iff,
      hnames]
    simp only [List.mem_map, decide_eq_true_eq, not_exists, not_and, bne_iff_ne, ne_comm]
  have hfields : nodeType.fields = [(Text.ofString "read", .any), (Text.ofString "call", .any),
    (Text.ofString "construct", .any), (Text.ofString "esm", .boolean),
    (Text.ofString "properties", .dictionary .record)] := rfl
  rw [hV.of_record, hfields]
  simp only [List.flatMap_cons, List.flatMap_nil, hpayload, List.nil_append, List.append_nil,
    hunknown]
  rfl

theorem lists_flag (node : Json) : Lists (HasBadFlag node) ((node.member? "esm").elim [] fun v =>
    (V.violations nodeType .boolean v).map (·.under "esm")) := by
  unfold HasBadFlag
  cases node.member? "esm" with
  | none => exact .nil (by simp)
  | some v =>
    rw [Option.elim_some, hV.of_boolean]
    cases hflag : V.boolean v with
    | ok b =>
      refine .nil ?_
      rintro o ⟨v', hv', h, -⟩
      cases hv'
      exact h b ((hV.boolean v b).1 hflag)
    | error kind =>
      refine .singleton (x := ⟨[3], ["esm"]⟩) fun o => ?_
      have hnone : ∀ b, ¬ Spells v b := by
        intro b hb
        cases hflag.symm.trans ((hV.boolean v b).2 hb)
      simp [hnone]

omit hV in
theorem lists_dictionary
    (h : ∀ p ∈ nodes, Lists (OffendsIn p.2) (V.violations nodeType .record p.2)) (offset : Nat) :
    Lists (OffendsAmong offset nodes)
      (nodes.flatMap fun p => (V.violations nodeType .record p.2).map (·.under p.1)) := by
  refine lists_ranked ?_ (fun p hp rank => (h p hp).under rank p.1) offset
  rintro o rank p ⟨o', -, rfl⟩
  exact ⟨o'.address, rfl⟩

theorem lists_properties
    (h : ∀ p ∈ nodesBelow node, Lists (OffendsIn p.2) (V.violations nodeType .record p.2)) :
    Lists (HasBadProperties node) ((node.member? "properties").elim [] fun v =>
      (V.violations nodeType (.dictionary .record) v).map (·.under "properties")) := by
  unfold HasBadProperties
  cases hv : node.member? "properties" with
  | none => exact .nil (by simp)
  | some v =>
    rw [Option.elim_some]
    cases v with
    | object nodes =>
      rw [nodesBelow_of_member? hv] at h
      rw [hV.of_dictionary]
      refine ((lists_dictionary h 0).under 4 "properties").congr fun o => ?_
      simp
    | _ =>
      rw [hV.of_no_dictionary _ _ _ (by simp)]
      refine .singleton (x := ⟨[4], ["properties"]⟩) fun o => ?_
      simp

/-- What is listed for a node is what offends in it: first its flag, then its properties, and then
its unknown members. -/
theorem lists_node (node : Json) : Lists (OffendsIn node) (V.violations nodeType .record node) := by
  induction node using node_induction with
  | h node ih =>
    by_cases hnode : ∃ members, node = .object members
    · obtain ⟨members, rfl⟩ := hnode
      rw [violations_node hV]
      refine ((lists_flag hV _).append (lists_properties hV ih) ?_ fun o => Iff.rfl).append
        (lists_unknown 5 members) ?_ fun o => offendsIn_object_iff
      · rintro o o' ⟨_, _, _, rfl⟩ (⟨_, _, _, rfl⟩ | ⟨_, _, _, _, rfl⟩)
        all_goals exact List.cons_lt_cons_iff.2 (.inl (by decide))
      · rintro o o' (⟨_, _, _, rfl⟩ | ⟨_, _, _, rfl⟩ | ⟨_, _, _, _, rfl⟩) ⟨i, _, _, _, rfl⟩
        all_goals exact List.cons_lt_cons_iff.2 (.inl (Nat.lt_add_right i (by decide)))
    · rw [hV.of_no_record _ _ (not_exists.1 hnode)]
      exact .singleton (x := ⟨[], []⟩) fun o => offendsIn_iff_of_no_object (not_exists.1 hnode)

/-- What is listed for a document is what offends in it. -/
theorem lists_violations (document : Json) : Lists (Offends document) (violations document) := by
  unfold violations
  by_cases hobject : ∃ roots, document = .object roots
  · obtain ⟨roots, rfl⟩ := hobject
    rw [hV.of_dictionary]
    exact (lists_dictionary (fun p _ => lists_node hV p.2) 0).congr fun o => offends_object_iff
  · rw [hV.of_no_dictionary _ _ _ (not_exists.1 hobject)]
    refine .singleton (x := ⟨[], []⟩) fun o => ?_
    constructor
    · intro ho
      cases ho with
      | root => rfl
      | node hnode =>
        cases hnode
        exact absurd ⟨_, rfl⟩ hobject
    · rintro rfl
      exact .root (not_exists.1 hobject)

end Lawful

/-! ## Documents in which nothing offends -/

theorem isNode_iff : IsNode node ↔ ∀ o, ¬ OffendsItself node o := by
  constructor
  · rintro ⟨names, esm, properties⟩ o ho
    cases ho with
    | notAnObject h => exact h _ rfl
    | esm hv h =>
      obtain ⟨b, hb⟩ := esm _ hv
      exact h b hb
    | properties hv h =>
      obtain ⟨nodes, rfl⟩ := properties _ hv
      exact h nodes rfl
    | unknown hi hname => exact hname (names _ (List.mem_of_getElem? hi))
  · intro h
    obtain ⟨members, rfl⟩ : ∃ members, node = .object members := by
      by_contra hobject
      exact h _ (.notAnObject (not_exists.1 hobject))
    refine ⟨?_, ?_, ?_⟩
    · intro p hp
      obtain ⟨i, hi⟩ := List.getElem?_of_mem hp
      by_contra hname
      exact h _ (.unknown hi hname)
    · intro v hv
      by_contra hspells
      exact h _ (.esm hv (not_exists.1 hspells))
    · intro v hv
      by_contra hobject
      exact h _ (.properties hv (not_exists.1 hobject))

theorem followsSchema_iff : FollowsSchema document ↔ ∀ o, ¬ Offends document o := by
  constructor
  · rintro ⟨⟨roots, rfl⟩, hnodes⟩ o ho
    cases ho with
    | root h => exact h roots rfl
    | node hnode ho => exact isNode_iff.1 (hnodes _ _ _ hnode) _ ho
  · intro h
    refine ⟨?_, fun ranks place node hnode => isNode_iff.2 fun o ho => h _ (.node hnode ho)⟩
    by_contra hobject
    exact h _ (.root (not_exists.1 hobject))

section Maps

variable [V : Validator]

theorem toMap_eq_error {found : List Violation} (h : toMap document = .error found) :
    found = violations document := by
  unfold toMap at h
  split at h
  · cases h
  · exact (Except.error.inj h).symm

theorem violations_eq_nil_iff (hV : V.Lawful) :
    violations document = [] ↔ FollowsSchema document :=
  (lists_violations hV document).eq_nil_iff.trans followsSchema_iff.symm

theorem exists_toMap_iff (hV : V.Lawful) :
    (∃ m, toMap document = .ok m) ↔ FollowsSchema document := by
  rw [← violations_eq_nil_iff hV]
  constructor
  · rintro ⟨m, hm⟩
    exact (toMap_eq_ok hm).1
  · intro h
    obtain ⟨roots, rfl⟩ := ((violations_eq_nil_iff hV).1 h).roots
    unfold toMap
    rw [h]
    exact ⟨_, rfl⟩

/-- **The form of documents is checked exactly.** With a validator that keeps its laws a document is
a map exactly if it follows the schema. The map then says at every path of names what the document
says there. Otherwise all that is wrong is listed: every place that offends, once, with the names
that lead to it, in the order of the document. -/
theorem schema_is_exact (hV : V.Lawful) (document : Json) :
    ((∃ m, toMap document = .ok m) ↔ FollowsSchema document) ∧
    (∀ m, toMap document = .ok m → ∀ path,
      Option.Rel (Describes (Spells · true)) (find? (asNode document) path) (m.walk? path)) ∧
    ∀ found, toMap document = .error found → found ≠ [] ∧ Lists (Offends document) found := by
  refine ⟨exists_toMap_iff hV, ?_, ?_⟩
  · intro m hm path
    obtain ⟨-, rfl⟩ := toMap_eq_ok hm
    have hreads : (Validator.Reads · true) = (Spells · true) := by
      funext v
      exact propext (hV.boolean v true)
    rw [← hreads]
    exact describes_walk? (asNode document) path
  · intro found hfound
    obtain rfl := toMap_eq_error hfound
    refine ⟨?_, lists_violations hV document⟩
    intro hnil
    obtain ⟨m, hm⟩ := (exists_toMap_iff hV).2 ((violations_eq_nil_iff hV).1 hnil)
    rw [hm] at hfound
    cases hfound

end Maps

/-- A node with a flag that spells nothing, a member too many, and two faults below it. -/
def faultyNode : Json :=
  .object [("x", .int 1), ("esm", .null), ("properties", .object [("a", .int 5),
    ("b", .object [("properties", .array [])])])]

theorem schema_is_exact_faulty :
    ∃ found, @toMap (Checker.validator .none) (.object [("m", faultyNode)]) = .error found ∧
      found.map Violation.place = ([["m", "esm"], ["m", "properties", "a"],
        ["m", "properties", "b", "properties"], ["m", "x"]] : List (List Text)) ∧
      ¬ FollowsSchema (.object [("m", faultyNode)]) ∧
      Lists (Offends (.object [("m", faultyNode)])) found := by
  have herror : @toMap (Checker.validator .none) (.object [("m", faultyNode)]) =
      .error (@violations (Checker.validator .none) (.object [("m", faultyNode)])) := rfl
  obtain ⟨hmap, -, hfound⟩ := @schema_is_exact (Checker.validator .none) Checker.lawful_none
    (.object [("m", faultyNode)])
  refine ⟨_, herror, by decide, ?_, (hfound _ herror).2⟩
  rw [← hmap, herror]
  rintro ⟨m, hm⟩
  cases hm

/-! ## The validator of the program -/

open DocumentNode in
/-- What a node is read as depends on how booleans are read, and on nothing else of a validator. -/
theorem ofJson_congr {V W : Validator} (h : V.boolean = W.boolean) (node : Json) :
    @ofJson V node = @ofJson W node := by
  induction node using node_induction with
  | h node ih =>
    cases node with
    | object members =>
      have hflag : @isModule V members = @isModule W members := by
        unfold isModule
        rw [h]
      rw [@ofJson.eq_def V, @ofJson.eq_def W]
      simp only [hflag, @propertiesOf_eq_map V, @propertiesOf_eq_map W]
      congr 1
      refine List.map_congr_left fun p hp => ?_
      rw [ih p hp]
    | _ => rfl

/-- Within the limits the program reads documents as it would without limits. -/
theorem toMap_usual {document : Json}
    (h : Checker.Within nodeType .usual (.dictionary .record) document) :
    toMap document = @toMap (Checker.validator .none) document := by
  have hviolations : violations document = @violations (Checker.validator .none) document :=
    Checker.check_eq_none h
  have hnode : ∀ node, DocumentNode.ofJson node =
      @DocumentNode.ofJson (Checker.validator .none) node :=
    ofJson_congr (V := Checker.validator .usual) (W := Checker.validator .none) rfl
  have hnodes : ∀ nodes, DocumentNode.nodesOf nodes =
      @DocumentNode.nodesOf (Checker.validator .none) nodes := by
    intro nodes
    rw [DocumentNode.nodesOf_eq_map, @DocumentNode.nodesOf_eq_map (Checker.validator .none)]
    exact List.map_congr_left fun p _ => by rw [hnode]
  unfold toMap
  rw [hviolations]
  simp only [hnodes]

end ApiTrace.Document
