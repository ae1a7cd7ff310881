import ApiTrace.Scope.Graph

/-!
# Layout of scope events

Scopes are opened and closed in the order in which a program is read, and they are also looked for
by place. The two agree if what is read in a scope lies in the block of the scope and what is read
outside lies outside. `Laid` says so of a list of events, with the set of offsets, the zone, that
the events keep to: events one after the other keep to zones that have no offset in common, and the
events of a scope keep to its block.

There is one exception. A class and a `switch` statement open their scope after the expression that
the class extends, or the value that is tested, has been read, although that expression lies in
their block. What stands directly in such an expression is *loose* (`LooseBelow`): a look-up by
place takes it for a part of the scope that opens next.
-/

namespace ApiTrace

/-! ## Zones -/

/-- A set of offsets. -/
abbrev Zone := Nat → Prop

namespace Zone

/-- The offsets of a zone all belong to another. -/
def Sub (Z Z' : Zone) : Prop := ∀ o, Z o → Z' o

/-- Two zones have no offset in common. -/
def Apart (Z Z' : Zone) : Prop := ∀ o, Z o → ¬ Z' o

/-- No offset at all. -/
def none : Zone := fun _ => False

/-- The offsets of two zones. -/
def join (Z Z' : Zone) : Zone := fun o => Z o ∨ Z' o

variable {Z Z' Z'' : Zone}

theorem Sub.refl (Z : Zone) : Z.Sub Z := fun _ h => h

theorem Sub.trans (h : Z.Sub Z') (h' : Z'.Sub Z'') : Z.Sub Z'' := fun o ho => h' o (h o ho)

theorem none_sub (Z : Zone) : none.Sub Z := fun _ h => h.elim

theorem sub_join_left (Z Z' : Zone) : Z.Sub (Z.join Z') := fun _ h => .inl h

theorem sub_join_right (Z Z' : Zone) : Z'.Sub (Z.join Z') := fun _ h => .inr h

theorem join_sub (h : Z.Sub Z'') (h' : Z'.Sub Z'') : (Z.join Z').Sub Z'' := by
  rintro o (ho | ho)
  · exact h o ho
  · exact h' o ho

theorem Apart.symm (h : Z.Apart Z') : Z'.Apart Z := fun o ho' ho => h o ho ho'

theorem Apart.mono {Y Y' : Zone} (h : Z.Apart Z') (hY : Y.Sub Z) (hY' : Y'.Sub Z') : Y.Apart Y' :=
  fun o ho ho' => h o (hY o ho) (hY' o ho')

theorem none_apart (Z : Zone) : none.Apart Z := fun _ h => h.elim

theorem join_apart (h : Z.Apart Z'') (h' : Z'.Apart Z'') : (Z.join Z').Apart Z'' := by
  rintro o (ho | ho)
  · exact h o ho
  · exact h' o ho

theorem apart_join (h : Z.Apart Z') (h' : Z.Apart Z'') : Z.Apart (Z'.join Z'') :=
  (join_apart h.symm h'.symm).symm

end Zone

/-- The offsets of a span. -/
def Span.zone (s : Span) : Zone := fun o => s.start ≤ o ∧ o < s.stop

/-! ## Loose places -/

/-- The roles of what is read before its node opens a scope. -/
def Role.isLoose : Role → Bool
  | .superClass | .discriminant => true
  | _ => false

/-- Whether a way up leads, before it is down to its last `depth` frames, out of something that is
read before its node opens a scope. -/
def LooseBelow (depth : Nat) (above : List Frame) : Prop :=
  ∃ frame ∈ above.take (above.length - depth), frame.slot.role.isLoose = true

theorem looseBelow_cons {depth : Nat} {above : List Frame} (h : depth ≤ above.length)
    (frame : Frame) :
    LooseBelow depth (frame :: above) ↔
      frame.slot.role.isLoose = true ∨ LooseBelow depth above := by
  have hlength : (frame :: above).length - depth = (above.length - depth) + 1 := by
    simp only [List.length_cons]
    omega
  simp only [LooseBelow, hlength, List.take_succ_cons, List.mem_cons]
  constructor
  · rintro ⟨f, rfl | hf, hloose⟩
    · exact .inl hloose
    · exact .inr ⟨f, hf, hloose⟩
  · rintro (hloose | ⟨f, hf, hloose⟩)
    · exact ⟨frame, .inl rfl, hloose⟩
    · exact ⟨f, .inr hf, hloose⟩

theorem not_looseBelow_length (above : List Frame) : ¬ LooseBelow above.length above := by
  simp [LooseBelow]

/-- Whether a part of a node is read before the scope of this kind that the node opens. -/
def ScopeKind.defers : ScopeKind → Role → Bool
  | .classBody, .superClass | .switchBody, .discriminant => true
  | _, _ => false

theorem ScopeKind.isLoose_of_defers {kind : ScopeKind} {role : Role} (h : kind.defers role = true) :
    role.isLoose = true := by
  cases kind <;> cases role <;> first | rfl | cases h

/-- A place below `base` with nothing loose on the way to it. -/
def Clear (base above : List Frame) : Prop :=
  ∃ frames, above = frames ++ base ∧ ∀ frame ∈ frames, frame.slot.role.isLoose = false

namespace Clear

variable {base above above' : List Frame} {depth : Nat}

theorem refl (base : List Frame) : Clear base base := ⟨[], rfl, List.forall_mem_nil _⟩

theorem cons {frame : Frame} (hframe : frame.slot.role.isLoose = false) :
    Clear base (frame :: base) :=
  ⟨[frame], rfl, List.forall_mem_singleton.2 hframe⟩

theorem trans (h : Clear base above) (h' : Clear above above') : Clear base above' := by
  obtain ⟨frames, rfl, hframes⟩ := h
  obtain ⟨frames', rfl, hframes'⟩ := h'
  exact ⟨frames' ++ frames, (List.append_assoc _ _ _).symm,
    List.forall_mem_append.2 ⟨hframes', hframes⟩⟩

theorem down {s : Site} (h : Clear base s.above) {slot : Slot} (hslot : slot.role.isLoose = false) :
    Clear base (s.frames slot) := h.trans (cons hslot)

theorem length_le (h : Clear base above) : base.length ≤ above.length := by
  obtain ⟨frames, rfl, -⟩ := h
  rw [List.length_append]
  omega

/-- What is loose at a place is loose where the way to it begins. -/
theorem looseBelow_iff (h : Clear base above) (hdepth : depth ≤ base.length) :
    LooseBelow depth above ↔ LooseBelow depth base := by
  obtain ⟨frames, rfl, hframes⟩ := h
  induction frames with
  | nil => rfl
  | cons frame frames ih =>
    obtain ⟨hframe, hframes⟩ := List.forall_mem_cons.1 hframes
    rw [List.cons_append, looseBelow_cons, hframe]
    · simpa using ih hframes
    · rw [List.length_append]
      omega

end Clear

/-! ## Points -/

/-- Whether a definition binds its name in the scope that it stands in: everything does that is no
`var` and not the name of a function or class. -/
def Definition.bindsHere (d : Definition) : Bool :=
  match d.kind with
  | .parameter | .caught | .imported => true
  | .declared => d.parent.any fun declaration =>
    match declaration.node.form with
    | .variableDeclaration keyword _ => keyword != "var"
    | _ => false
  | .functionName | .className => false

/-- Whether a definition is that of a parameter, of a function or of a `catch` clause. -/
def Definition.isParameter (d : Definition) : Bool :=
  match d.kind with
  | .parameter | .caught => true
  | _ => false

namespace ScopeEvent

/-- The identifier that an event mentions or binds in the scope that it stands in. -/
def site? : ScopeEvent → Option Site
  | .mention m => some m.identifier
  | .define _ d => if d.bindsHere then some d.name else none
  | _ => none

/-- Whether an event opens or closes a scope. -/
def isBracket : ScopeEvent → Bool
  | .enter .. | .leave => true
  | _ => false

theorem isBracket_of_site? {e : ScopeEvent} {s : Site} (h : e.site? = some s) :
    e.isBracket = false := by
  cases e with
  | enter | leave => cases h
  | _ => rfl

/-- An event that opens and closes nothing and stands below `base` in a zone. -/
structure IsPoint (base : List Frame) (depth : Nat) (Z : Zone) (e : ScopeEvent) : Prop where
  bracket : e.isBracket = false
  site : ∀ s, e.site? = some s → Clear base s.above ∧ (s.node.start < s.node.stop → Z s.node.start)
  binding : ∀ target d, e = .define target d → d.bindsHere = true →
    target = .here ∧ (d.isParameter = true → ¬ LooseBelow depth d.name.above)

theorem IsPoint.mono {base base' : List Frame} {depth : Nat} {Z Z' : Zone} {e : ScopeEvent}
    (h : e.IsPoint base depth Z) (hbase : Clear base' base) (hZ : Z.Sub Z') :
    e.IsPoint base' depth Z' where
  bracket := h.bracket
  site s hs :=
    have hsite := h.site s hs
    ⟨hbase.trans hsite.1, fun hne => hZ _ (hsite.2 hne)⟩
  binding := h.binding

end ScopeEvent

/-! ## Laid events -/

/-- Events that keep to a zone, all below the frames `base`, in a scope whose block has `depth`
nodes above it. Before a scope opens there may be loose events, `before`, in its block: those of the
part that the node defers its scope for. -/
inductive Laid : List Frame → Nat → Zone → List ScopeEvent → Prop where
  | points {base depth Z events} (h : ∀ e ∈ events, e.IsPoint base depth Z) :
      Laid base depth Z events
  | append {base depth Z Z₁ Z₂ first second} (hfirst : Laid base depth Z₁ first)
      (hsecond : Laid base depth Z₂ second) (apart : Z₁.Apart Z₂) (sub₁ : Z₁.Sub Z)
      (sub₂ : Z₂.Sub Z) : Laid base depth Z (first ++ second)
  | scope {base depth Z Z₁ Z₂ kind block slot before inside}
      (hbefore : Laid (block.frames slot) depth Z₁ before)
      (loose : before = [] ∨ kind.defers slot.role = true) (hdepth : depth ≤ block.above.length)
      (hbase : Clear base block.above) (hinside : Laid block.above block.above.length Z₂ inside)
      (apart : Z₁.Apart Z₂) (sub₁ : Z₁.Sub block.span.zone) (within : Z₂.Sub block.span.zone)
      (sub : block.span.zone.Sub Z) :
      Laid base depth Z (before ++ .enter kind block :: inside ++ [ScopeEvent.leave])

namespace Laid

variable {base base' : List Frame} {depth : Nat} {Z Z' : Zone} {events : List ScopeEvent}

theorem mono (h : Laid base depth Z events) (hbase : Clear base' base) (hZ : Z.Sub Z') :
    Laid base' depth Z' events := by
  induction h generalizing Z' with
  | points h => exact .points fun e he => (h e he).mono hbase hZ
  | append _ _ apart sub₁ sub₂ ih₁ ih₂ =>
    exact .append (ih₁ hbase (.refl _)) (ih₂ hbase (.refl _)) apart (sub₁.trans hZ) (sub₂.trans hZ)
  | scope hbefore loose hdepth hbase' hinside apart sub₁ within sub _ _ =>
    exact .scope hbefore loose hdepth (hbase.trans hbase') hinside apart sub₁ within (sub.trans hZ)

theorem site_mem (h : Laid base depth Z events) {e : ScopeEvent} (he : e ∈ events) {s : Site}
    (hs : e.site? = some s) (hne : s.node.start < s.node.stop) : Z s.node.start := by
  induction h with
  | points h => exact ((h e he).site s hs).2 hne
  | append _ _ _ sub₁ sub₂ ih₁ ih₂ =>
    rcases List.mem_append.1 he with he | he
    · exact sub₁ _ (ih₁ he)
    · exact sub₂ _ (ih₂ he)
  | scope _ _ _ _ _ _ sub₁ within sub ih₁ ih₂ =>
    simp only [List.mem_append, List.mem_cons, List.not_mem_nil, or_false] at he
    rcases he with (he | rfl | he) | rfl
    · exact sub _ (sub₁ _ (ih₁ he))
    · cases hs
    · exact sub _ (within _ (ih₂ he))
    · cases hs

theorem nil : Laid base depth Z [] := .points fun _ he => nomatch he

theorem join {Z₁ Z₂ : Zone} {first second : List ScopeEvent} (hfirst : Laid base depth Z₁ first)
    (hsecond : Laid base depth Z₂ second) (apart : Z₁.Apart Z₂) :
    Laid base depth (Z₁.join Z₂) (first ++ second) :=
  .append hfirst hsecond apart (Zone.sub_join_left _ _) (Zone.sub_join_right _ _)

/-- A scope with nothing loose before it. -/
theorem bracket (kind : ScopeKind) (block : Site) {inside : List ScopeEvent}
    (hdepth : depth ≤ block.above.length)
    (hinside : Laid block.above block.above.length Z inside) (within : Z.Sub block.span.zone) :
    Laid block.above depth block.span.zone (.enter kind block :: inside ++ [ScopeEvent.leave]) := by
  have hbefore : Laid (block.frames ⟨.body, 0⟩) depth Zone.none [] := .nil
  exact .scope hbefore (.inl rfl) hdepth (.refl _) hinside (Zone.none_apart _)
    (Zone.none_sub _) within
    (.refl _)

end Laid

end ApiTrace
