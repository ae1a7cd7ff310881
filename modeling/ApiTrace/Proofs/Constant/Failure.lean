import ApiTrace.Constant.Key
import ApiTrace.Proofs.Number.Overflow
import ApiTrace.Proofs.Reading.Shape

/-!
# Expressions that cannot be asked for a constant

Asking an expression for its constant value fails for one of three reasons: a part is missing, an
integer is too long to be written, or it is too large to be added to a floating point number.
`Node.Breaks` says where in an expression this happens, and it is the only way in which asking fails
(`Node.Shaped.constant?_eq_error_iff`). The same is said of the text of an expression and of the key
of a property (`Form.key?_eq_error_iff`).
-/

namespace ApiTrace

/-! ## Constants -/

namespace Constant

/-- An integer that is too long to be written. -/
inductive IsTooLong : Constant → Prop where
  | int {n : Int} (h : Nat.pow 10 Numeral.digitLimit ≤ n.natAbs) : IsTooLong (.number (.int n))

/-- Two constants that cannot be added. -/
inductive Clash : Constant → Constant → ConstantFault → Prop where
  | intFloat {n : Int} {x : Binary64} (h : Binary64.integerLimit ≤ n.natAbs) :
      Clash (.number (.int n)) (.number (.float x)) .tooLargeForFloat
  | floatInt {n : Int} {x : Binary64} (h : Binary64.integerLimit ≤ n.natAbs) :
      Clash (.number (.float x)) (.number (.int n)) .tooLargeForFloat
  | textInt {t : Text} {c : Constant} (h : c.IsTooLong) : Clash (.string t) c .tooLongToWrite
  | intText {t : Text} {c : Constant} (h : c.IsTooLong) : Clash c (.string t) .tooLongToWrite

theorem intText_of_lt {n : Int} (h : n.natAbs < Nat.pow 10 Numeral.digitLimit) :
    (number (.int n)).toText = .ok (Text.ofInt n) := by
  rw [toText, intText, Numeral.writeInt, if_pos h]
  rfl

theorem toText_eq_error_iff {c : Constant} {fault : ConstantFault} :
    c.toText = .error fault ↔ c.IsTooLong ∧ fault = .tooLongToWrite := by
  constructor
  · intro h
    cases c with
    | number value =>
      cases value with
      | int n =>
        simp only [toText, intText, Numeral.writeInt] at h
        split at h
        · cases h
        · rename_i hlong
          cases h
          exact ⟨.int (Nat.le_of_not_lt hlong), rfl⟩
      | float x => cases h
    | boolean value => cases value <;> cases h
    | _ => cases h
  · rintro ⟨⟨h⟩, rfl⟩
    simp only [toText, intText, Numeral.writeInt, if_neg (Nat.not_lt.2 h)]
    rfl

/-- An integer next to a floating point number. -/
theorem elim_ofInt?_eq_error_iff {n : Int} {f : Binary64 → Number} {fault : ConstantFault} :
    (Binary64.ofInt? n).elim (.error .tooLargeForFloat) (fun x => .ok (f x)) =
      (.error fault : Except ConstantFault Number) ↔
      Binary64.integerLimit ≤ n.natAbs ∧ fault = .tooLargeForFloat := by
  rw [← Binary64.ofInt?_eq_none_iff]
  cases Binary64.ofInt? n with
  | none => exact ⟨fun h => ⟨rfl, (Except.error.inj h).symm⟩, fun h => congrArg _ h.2.symm⟩
  | some x => exact iff_of_false nofun (fun h => nomatch h.1)

/-- Anything but such an integer can be written. -/
theorem exists_toText {c : Constant} (h : ¬ c.IsTooLong) : ∃ t, c.toText = .ok t := by
  cases ht : c.toText with
  | ok t => exact ⟨t, rfl⟩
  | error fault => exact absurd (toText_eq_error_iff.1 ht).1 h

theorem addNumbers_eq_error_iff {a b : Number} {fault : ConstantFault} :
    addNumbers a b = .error fault ↔ Clash (.number a) (.number b) fault := by
  cases a with
  | int n =>
    cases b with
    | int m => exact iff_of_false nofun nofun
    | float y =>
      rw [addNumbers, elim_ofInt?_eq_error_iff]
      constructor
      · rintro ⟨h, rfl⟩
        exact .intFloat h
      · intro h
        cases h with
        | intFloat h => exact ⟨h, rfl⟩
  | float x =>
    cases b with
    | int m =>
      rw [addNumbers, elim_ofInt?_eq_error_iff]
      constructor
      · rintro ⟨h, rfl⟩
        exact .floatInt h
      · intro h
        cases h with
        | floatInt h => exact ⟨h, rfl⟩
    | float y => exact iff_of_false nofun nofun

/-- A text is put together of two constants of which one is a text. -/
theorem append_eq_error_iff {a b : Constant} {fault : ConstantFault}
    (h : (∃ t, a = .string t) ∨ ∃ t, b = .string t) :
    (do return some (.string ((← a.toText) ++ (← b.toText))) : Except ConstantFault
      (Option Constant)) =
      .error fault ↔ a.Clash b fault := by
  rw [bind_eq_error]
  constructor
  · rintro (ha | ⟨s, -, hb⟩)
    · obtain ⟨hlong, rfl⟩ := toText_eq_error_iff.1 ha
      rcases h with ⟨t, rfl⟩ | ⟨t, rfl⟩
      · cases hlong
      · exact .intText hlong
    · rcases bind_eq_error.1 hb with hb | ⟨s', -, hb⟩
      · obtain ⟨hlong, rfl⟩ := toText_eq_error_iff.1 hb
        rcases h with ⟨t, rfl⟩ | ⟨t, rfl⟩
        · exact .textInt hlong
        · cases hlong
      · cases hb
  · intro hclash
    cases hclash with
    | intFloat | floatInt => exact absurd h (by simp)
    | textInt hlong =>
      refine .inr ⟨_, rfl, bind_eq_error.2 (.inl ?_)⟩
      exact toText_eq_error_iff.2 ⟨hlong, rfl⟩
    | intText hlong => exact .inl (toText_eq_error_iff.2 ⟨hlong, rfl⟩)

theorem plus_eq_error_iff {a b : Constant} {fault : ConstantFault} :
    a.plus b = .error fault ↔ a.Clash b fault := by
  cases a with
  | string t => exact append_eq_error_iff (.inl ⟨t, rfl⟩)
  | number x =>
    cases b with
    | string t => exact append_eq_error_iff (.inr ⟨t, rfl⟩)
    | number y =>
      rw [← addNumbers_eq_error_iff, plus, bind_eq_error]
      constructor
      · rintro (h | ⟨z, -, h⟩)
        · exact h
        · cases h
      · exact .inl
    | _ => exact iff_of_false nofun nofun
  | _ =>
    cases b with
    | string t => exact append_eq_error_iff (.inr ⟨t, rfl⟩)
    | _ => exact iff_of_false nofun nofun

end Constant

/-! ## Expressions -/

mutual

/-- An expression that cannot be asked for its constant value. -/
inductive Node.Breaks (joins : Bool) : Node → ConstantFault → Prop where
  /-- The node has the name of an expression and not its parts. -/
  | parts {span : Span} {name : Text} {children : List Node} (hname : name ∈ Constant.partedNames) :
      Node.Breaks joins (.mk span (.other name children)) .missingPart
  | signed {span : Span} {operator : Text} {argument : Option Node} {fault : ConstantFault}
      (hsign : operator = Text.ofString "-" ∨ operator = Text.ofString "+")
      (h : OperandBreaks joins argument fault) :
        Node.Breaks joins (.mk span (.unary operator argument)) fault
  | left {span : Span} {operator : Text} {left right : Option Node} {fault : ConstantFault}
      (hplus : operator = Text.ofString "+" ∧ joins = true) (h : OperandBreaks joins left fault) :
      Node.Breaks joins (.mk span (.binary left operator right)) fault
  | right {span : Span} {operator : Text} {left right : Option Node} {a : Constant}
      {fault : ConstantFault}
      (hplus : operator = Text.ofString "+" ∧ joins = true)
      (hleft : Form.operand joins left = .ok (some a))
      (h : OperandBreaks joins right fault) :
        Node.Breaks joins (.mk span (.binary left operator right)) fault
  | sum {span : Span} {operator : Text} {left right : Option Node} {a b : Constant}
      {fault : ConstantFault}
      (hplus : operator = Text.ofString "+" ∧ joins = true)
      (hleft : Form.operand joins left = .ok (some a))
      (hright : Form.operand joins right = .ok (some b)) (h : a.Clash b fault) :
      Node.Breaks joins (.mk span (.binary left operator right)) fault
  | template {span : Span} {quasis : List Node} {expressions : List (Option Node)}
      {fault : ConstantFault}
      (hjoins : joins = true) (h : TemplateBreaks joins expressions fault) :
      Node.Breaks joins (.mk span (.template quasis expressions)) fault

/-- An operand that is missing or cannot be asked for its constant value. -/
inductive OperandBreaks (joins : Bool) : Option Node → ConstantFault → Prop where
  | missing : OperandBreaks joins none .missingPart
  | some {n : Node} {fault : ConstantFault} (h : n.Breaks joins fault) :
      OperandBreaks joins (some n) fault

/-- The expressions of a template, of which one cannot be put into a text while those before it
can. -/
inductive TemplateBreaks (joins : Bool) : List (Option Node) → ConstantFault → Prop where
  | operand {o : Option Node} {os : List (Option Node)} {fault : ConstantFault}
      (h : OperandBreaks joins o fault) : TemplateBreaks joins (o :: os) fault
  | text {o : Option Node} {os : List (Option Node)} {c : Constant}
      (hvalue : Form.operand joins o = .ok (some c)) (h : c.IsTooLong) :
      TemplateBreaks joins (o :: os) .tooLongToWrite
  | later {o : Option Node} {os : List (Option Node)} {c : Constant} {fault : ConstantFault}
      (hvalue : Form.operand joins o = .ok (some c)) (hshort : ¬ c.IsTooLong)
      (h : TemplateBreaks joins os fault) : TemplateBreaks joins (o :: os) fault

end

section Expressions

variable {joins : Bool} {fault : ConstantFault} {names : Text → Bool}

/-- Asking a node fails exactly if the node breaks. -/
def Node.Exact (joins : Bool) (n : Node) : Prop :=
  ∀ fault, n.constant? joins = .error fault ↔ n.Breaks joins fault

theorem Form.operand_eq_error_iff {o : Option Node} (h : ∀ n ∈ o, n.Exact joins) :
    Form.operand joins o = .error fault ↔ OperandBreaks joins o fault := by
  cases o with
  | none =>
    constructor
    · rintro ⟨⟩
      exact .missing
    · rintro ⟨⟩
      rfl
  | some n =>
    rw [Form.operand, h n rfl]
    constructor
    · exact .some
    · intro hbreaks
      cases hbreaks with
      | some h => exact h

theorem Node.exact_unary {span : Span} {operator : Text} {argument : Option Node}
    (h : ∀ n ∈ argument, n.Exact joins) :
    (Node.mk span (.unary operator argument)).Exact joins := by
  intro fault
  rw [Node.constant?, Form.constant?]
  split
  · rename_i hsign
    rw [bind_eq_error, Form.operand_eq_error_iff h]
    constructor
    · rintro (hbreaks | ⟨a, -, hpure⟩)
      · exact .signed hsign hbreaks
      · cases hpure
    · rintro ⟨⟩
      exact .inl ‹_›
  · rename_i hsign
    refine iff_of_false nofun ?_
    rintro ⟨⟩
    exact hsign ‹_›

theorem Node.exact_binary {span : Span} {operator : Text} {left right : Option Node}
    (hleft : ∀ n ∈ left, n.Exact joins) (hright : ∀ n ∈ right, n.Exact joins) :
    (Node.mk span (.binary left operator right)).Exact joins := by
  intro fault
  rw [Node.constant?, Form.constant?]
  split
  · rename_i hplus
    rw [bind_eq_error, Form.operand_eq_error_iff hleft]
    constructor
    · rintro (hbreaks | ⟨_ | a, ha, h⟩)
      · exact .left hplus hbreaks
      · cases h
      · rcases bind_eq_error.1 h with hbreaks | ⟨_ | b, hb, h⟩
        · exact .right hplus ha ((Form.operand_eq_error_iff hright).1 hbreaks)
        · cases h
        · exact .sum hplus ha hb (Constant.plus_eq_error_iff.1 h)
    · intro hbreaks
      cases hbreaks with
      | left _ h => exact .inl h
      | right _ ha h =>
        exact .inr ⟨_, ha, bind_eq_error.2 (.inl ((Form.operand_eq_error_iff hright).2 h))⟩
      | sum _ ha hb h =>
        exact .inr ⟨_, ha, bind_eq_error.2 (.inr ⟨_, hb, Constant.plus_eq_error_iff.2 h⟩)⟩
  · rename_i hplus
    refine iff_of_false nofun ?_
    rintro ⟨⟩
    all_goals exact hplus ‹_›

/-- A text between expressions can be read. -/
theorem Node.exists_pieceText {n : Node} (h : n.isTemplateElement = true) :
    ∃ t, n.pieceText = .ok t := by
  obtain ⟨span, f⟩ := n
  cases f with
  | templateElement t => exact ⟨t, rfl⟩
  | _ => cases h

/-- The part of a template after its first piece. -/
theorem Form.templateRest_eq_error_iff {expressions : List (Option Node)} {pieces : List Node}
    (hexact : ∀ o ∈ expressions, ∀ n ∈ o, n.Exact joins)
    (hlength : expressions.length ≤ pieces.length)
    (hpieces : ∀ n ∈ pieces, n.isTemplateElement = true) :
    Form.templateRest joins expressions pieces = .error fault ↔
      TemplateBreaks joins expressions fault := by
  -- Pieces and expressions are taken in turn, and there are enough pieces for all expressions.
  induction expressions generalizing pieces with
  | nil =>
    rw [Form.templateRest.eq_def]
    exact iff_of_false nofun nofun
  | cons o os ih =>
    cases pieces with
    | nil => cases hlength
    | cons piece pieces =>
      obtain ⟨hexact, hexacts⟩ := List.forall_mem_cons.1 hexact
      obtain ⟨hpiece, hpieces⟩ := List.forall_mem_cons.1 hpieces
      obtain ⟨t, ht⟩ := Node.exists_pieceText hpiece
      have hrest := @ih pieces hexacts (Nat.le_of_succ_le_succ hlength) hpieces
      rw [Form.templateRest, bind_eq_error, Form.operand_eq_error_iff hexact]
      constructor
      · rintro (hbreaks | ⟨_ | c, hc, h⟩)
        · exact .operand hbreaks
        · cases h
        · rcases bind_eq_error.1 h with h | ⟨s, hs, h⟩
          · obtain ⟨hlong, rfl⟩ := Constant.toText_eq_error_iff.1 h
            exact .text hc hlong
          · rw [ht] at h
            rcases bind_eq_error.1 h with h | ⟨_, _, h⟩
            · cases h
            · rcases bind_eq_error.1 h with h | ⟨_, _, h⟩
              · refine .later hc (fun hlong => ?_) (hrest.1 h)
                rw [Constant.toText_eq_error_iff.2 ⟨hlong, rfl⟩] at hs
                cases hs
              · cases h
      · intro hbreaks
        cases hbreaks with
        | operand h => exact .inl h
        | text hc h =>
          refine .inr ⟨_, hc, bind_eq_error.2 (.inl ?_)⟩
          exact Constant.toText_eq_error_iff.2 ⟨h, rfl⟩
        | later hc hshort h =>
          obtain ⟨s, hs⟩ := Constant.exists_toText hshort
          refine .inr ⟨_, hc, bind_eq_error.2 (.inr ⟨s, hs, ?_⟩)⟩
          rw [ht]
          exact bind_eq_error.2 (.inr ⟨t, rfl, bind_eq_error.2 (.inl (hrest.2 h))⟩)

theorem Node.exact_template {span : Span} {quasis : List Node} {expressions : List (Option Node)}
    (hexact : ∀ o ∈ expressions, ∀ n ∈ o, n.Exact joins)
    (hlength : expressions.length < quasis.length)
    (hquasis : ∀ n ∈ quasis, n.isTemplateElement = true) :
    (Node.mk span (.template quasis expressions)).Exact joins := by
  intro fault
  rw [Node.constant?, Form.constant?.eq_def]
  dsimp only
  split
  · rename_i hplain
    refine iff_of_false nofun ?_
    rintro ⟨⟩
    rename_i hjoins _
    simp [hjoins] at hplain
  · rename_i hplain
    cases quasis with
    | nil => cases hlength
    | cons first rest =>
      obtain ⟨hfirst, hrest⟩ := List.forall_mem_cons.1 hquasis
      obtain ⟨t, ht⟩ := Node.exists_pieceText hfirst
      have hbreaks : Form.templateRest joins expressions rest = .error fault ↔
          TemplateBreaks joins expressions fault :=
        Form.templateRest_eq_error_iff hexact (Nat.le_of_lt_succ hlength) hrest
      simp only [ht, bind_eq_error]
      constructor
      · rintro (h | ⟨_, _, h | ⟨_, _, h⟩⟩)
        · cases h
        · have h := hbreaks.1 h
          refine .template ?_ h
          cases expressions with
          | nil => cases h
          | cons => simpa using hplain
        · cases h
      · rintro ⟨⟩
        exact .inr ⟨t, rfl, .inl (hbreaks.2 ‹_›)⟩

/-- **Asking an expression for its constant value fails exactly where it breaks.** -/
theorem Node.Shaped.constant?_eq_error_iff {n : Node} (h : n.Shaped names) : n.Exact joins := by
  induction h with
  | @mk span f shape parts ih =>
    cases f with
    | unary operator argument =>
      exact Node.exact_unary fun n hn =>
        ih (.one .argument argument) (by simp [Form.parts]) n (Option.mem_toList.2 hn)
    | binary left operator right =>
      refine Node.exact_binary (fun n hn => ?_) fun n hn => ?_
      · exact ih (.one .left left) (by simp [Form.parts]) n (Option.mem_toList.2 hn)
      · exact ih (.one .right right) (by simp [Form.parts]) n (Option.mem_toList.2 hn)
    | template quasis expressions =>
      obtain ⟨hlength, hquasis⟩ := Bool.and_eq_true_iff.1 shape
      refine Node.exact_template (fun o ho n hn => ?_) (of_decide_eq_true hlength)
        (List.all_eq_true.1 hquasis)
      refine ih (.many .expressions expressions) (by simp [Form.parts]) n ?_
      exact List.mem_filterMap.2 ⟨o, ho, hn⟩
    | other name children =>
      intro fault
      rw [Node.constant?, Form.constant?]
      split
      · rename_i hname
        constructor
        · rintro ⟨⟩
          exact .parts hname
        · rintro ⟨⟩
          rfl
      · rename_i hname
        refine iff_of_false (by simp) ?_
        rintro ⟨⟩
        exact hname ‹_›
    | _ =>
      intro fault
      constructor
      · intro h
        cases h
      · intro h
        cases h

/-! ## Texts and keys -/

/-- An expression that cannot be asked for a text. -/
inductive Node.TextBreaks (joins : Bool) (n : Node) : ConstantFault → Prop where
  | value {fault : ConstantFault} (h : n.Breaks joins fault) : n.TextBreaks joins fault
  | text {c : Constant} (hvalue : n.constant? joins = .ok (some c)) (h : c.IsTooLong) :
      n.TextBreaks joins .tooLongToWrite

theorem Node.Shaped.constantText?_eq_error_iff {n : Node} (h : n.Shaped names) :
    n.constantText? joins = .error fault ↔ n.TextBreaks joins fault := by
  rw [Node.constantText?, bind_eq_error, h.constant?_eq_error_iff]
  constructor
  · rintro (hbreaks | ⟨_ | c, hc, htext⟩)
    · exact .value hbreaks
    · cases htext
    · rcases bind_eq_error.1 htext with htext | ⟨_, _, htext⟩
      · obtain ⟨hlong, rfl⟩ := Constant.toText_eq_error_iff.1 htext
        exact .text hc hlong
      · cases htext
  · intro hbreaks
    cases hbreaks with
    | value h => exact .inl h
    | text hc h =>
      refine .inr ⟨_, hc, bind_eq_error.2 (.inl ?_)⟩
      exact Constant.toText_eq_error_iff.2 ⟨h, rfl⟩

/-- The key of a property of an object or a pattern, or of a member of a class, and whether it is
computed. -/
def Form.entryKey? : Form → Option (Option Node × Bool)
  | .property key _ computed .. | .method key computed .. | .field key computed .. =>
    some (key, computed)
  | _ => none

/-- A member access, or an entry of an object, that cannot be asked for its key. -/
inductive Form.KeyBreaks (joins : Bool) : Form → ConstantFault → Prop where
  | bracketed {object : Option Node} {key : Node} {optional : Bool} {fault : ConstantFault}
      (h : key.TextBreaks joins fault) :
        KeyBreaks joins (.member object (some key) true optional) fault
  /-- What follows the dot is no name. -/
  | dotted {object : Option Node} {key : Node} {optional : Bool}
      (hname : key.form.identifierName? = none)
      (hprivate : key.form.name ≠ Text.ofString "PrivateIdentifier") :
      KeyBreaks joins (.member object (some key) false optional) .missingPart
  | computed {f : Form} {key : Node} {fault : ConstantFault}
      (hf : f.entryKey? = some (some key, true))
      (h : key.TextBreaks joins fault) : KeyBreaks joins f fault
  /-- The key is written as an integer that is too long. -/
  | literal {f : Form} {key : Node} {value : Literal} {raw : Text}
      (hf : f.entryKey? = some (some key, false)) (hkey : key.form = .literal value raw)
      (h : (Constant.ofLiteral value).IsTooLong) : KeyBreaks joins f .tooLongToWrite
  /-- The key has the name of a literal or of an identifier and not its parts. -/
  | parts {f : Form} {key : Node} {name : Text} {children : List Node}
      (hf : f.entryKey? = some (some key, false)) (hkey : key.form = .other name children)
      (hname : name = Text.ofString "Literal" ∨ name = Text.ofString "Identifier") :
      KeyBreaks joins f .missingPart

/-- What has a key that breaks has a key. -/
theorem Form.KeyBreaks.exists_key {f : Form} (h : f.KeyBreaks joins fault) :
    (∃ object key computed optional, f = .member object (some key) computed optional) ∨
      ∃ key computed, f.entryKey? = some (some key, computed) := by
  cases h with
  | bracketed | dotted => exact .inl ⟨_, _, _, _, rfl⟩
  | computed hf | literal hf | parts hf => exact .inr ⟨_, _, hf⟩

/-- The text of a literal. -/
theorem Node.constantText?_literal {span : Span} {value : Literal} {raw : Text} :
    (Node.mk span (.literal value raw)).constantText? joins = .error fault ↔
      (Constant.ofLiteral value).IsTooLong ∧ fault = .tooLongToWrite := by
  rw [← Constant.toText_eq_error_iff, Node.constantText?, bind_eq_error]
  constructor
  · rintro (h | ⟨_, hvalue, h⟩)
    · cases h
    · obtain rfl := Except.ok.inj hvalue
      rcases bind_eq_error.1 h with h | ⟨_, _, h⟩
      · exact h
      · cases h
  · intro h
    exact .inr ⟨_, rfl, bind_eq_error.2 (.inl h)⟩

theorem writtenKey?_eq_error_iff {f : Form} {key : Node}
    (hf : f.entryKey? = some (some key, false)) :
    writtenKey? joins (some key) = .error fault ↔ f.KeyBreaks joins fault := by
  obtain ⟨span, g⟩ := key
  constructor
  · intro h
    cases g with
    | literal value raw =>
      obtain ⟨hlong, rfl⟩ := Node.constantText?_literal.1 h
      exact .literal hf rfl hlong
    | other name children =>
      simp only [writtenKey?, Node.form] at h
      split at h
      · rename_i hname
        cases h
        exact .parts hf rfl hname
      · cases h
    | _ => cases h
  · intro h
    cases h with
    | bracketed | dotted => cases hf
    | computed hf' => simp [hf] at hf'
    | literal hf' hkey hlong =>
      obtain rfl : Node.mk span g = _ := by simpa [hf] using hf'
      obtain rfl : g = _ := hkey
      exact Node.constantText?_literal.2 ⟨hlong, rfl⟩
    | parts hf' hkey hname =>
      obtain rfl : Node.mk span g = _ := by simpa [hf] using hf'
      obtain rfl : g = _ := hkey
      simp only [writtenKey?, Node.form, if_pos hname]

theorem dottedKey?_eq_error_iff {key : Node} : dottedKey? (some key) = .error fault ↔
    (key.form.identifierName? = none ∧ key.form.name ≠ Text.ofString "PrivateIdentifier") ∧
      fault = .missingPart := by
  obtain ⟨span, f⟩ := key
  simp only [dottedKey?, Node.form]
  split
  iterate 3 exact iff_of_false (by simp) (by simp [Form.identifierName?])
  rename_i hidentifier hjsx hprivate
  have hnone : f.identifierName? = none := by
    unfold Form.identifierName?
    split
    · exact absurd rfl (hidentifier _)
    · exact absurd rfl (hprivate _)
    · exact absurd rfl (hjsx _)
    · rfl
  split
  · rename_i hname
    exact iff_of_false (by simp) fun h => h.1.2 hname
  · rename_i hname
    exact ⟨fun h => ⟨⟨hnone, hname⟩, (Except.error.inj h).symm⟩, fun h => congrArg _ h.2.symm⟩

theorem Form.key?_of_entryKey? {f : Form} {key : Option Node} {computed : Bool}
    (hf : f.entryKey? = some (key, computed)) :
    f.key? joins = if computed then optionConstantText? joins key else writtenKey? joins key := by
  cases f with
  | property | method | field =>
    cases hf
    rfl
  | _ => cases hf

/-- The key of a shaped node is shaped. -/
theorem Node.Shaped.entryKey {n key : Node} {computed : Bool} (h : n.Shaped names)
    (hkey : n.form.entryKey? = some (some key, computed)) : key.Shaped names := by
  obtain @⟨span, f, -, parts⟩ := h
  cases f with
  | property | method | field =>
    cases hkey
    exact parts (.one .key (some key)) (by simp [Form.parts]) key (by simp)
  | _ => cases hkey

theorem Node.Shaped.entry_key?_eq_error_iff {span : Span} {f : Form} {key : Option Node}
    {computed : Bool} (h : (Node.mk span f).Shaped names)
    (hkey : f.entryKey? = some (key, computed)) :
    f.key? joins = .error fault ↔ f.KeyBreaks joins fault := by
  rw [Form.key?_of_entryKey? hkey]
  cases key with
  | none =>
    have hok : (if computed then optionConstantText? joins none else writtenKey? joins none) =
        .ok none := by
      cases computed <;> rfl
    rw [hok]
    refine iff_of_false nofun fun hbreaks => ?_
    cases hbreaks <;> simp_all [Form.entryKey?]
  | some key =>
    cases computed with
    | false => exact writtenKey?_eq_error_iff hkey
    | true =>
      rw [if_pos rfl, optionConstantText?, (h.entryKey hkey).constantText?_eq_error_iff]
      refine ⟨.computed hkey, fun hbreaks => ?_⟩
      cases hbreaks <;> simp_all [Form.entryKey?]

theorem Node.Shaped.member_key?_eq_error_iff {span : Span} {object key : Option Node}
    {computed optional : Bool}
    (h : (Node.mk span (.member object key computed optional)).Shaped names) :
    (Form.member object key computed optional).key? joins = .error fault ↔
      (Form.member object key computed optional).KeyBreaks joins fault := by
  cases key with
  | none =>
    have hok : (Form.member object none computed optional).key? joins = .ok none := by
      cases computed <;> rfl
    rw [hok]
    refine iff_of_false nofun fun hbreaks => ?_
    rcases hbreaks.exists_key with ⟨_, _, _, _, h⟩ | ⟨_, _, h⟩ <;> cases h
  | some key =>
    cases computed with
    | false =>
      rw [Form.key?, if_neg Bool.false_ne_true, dottedKey?_eq_error_iff]
      constructor
      · rintro ⟨⟨hname, hprivate⟩, rfl⟩
        exact .dotted hname hprivate
      · intro hbreaks
        cases hbreaks with
        | dotted hname hprivate => exact ⟨⟨hname, hprivate⟩, rfl⟩
        | computed hentry | literal hentry | parts hentry => cases hentry
    | true =>
      obtain ⟨-, parts⟩ := h
      have hkey : key.Shaped names :=
        parts (.one .property (some key)) (by simp [Form.parts]) key (by simp)
      rw [Form.key?, if_pos rfl, optionConstantText?, hkey.constantText?_eq_error_iff]
      refine ⟨.bracketed, fun hbreaks => ?_⟩
      cases hbreaks with
      | bracketed h => exact h
      | computed hentry | literal hentry | parts hentry => cases hentry

/-- **Asking a node for its key fails exactly where its key breaks**, as long as the node has the
parts that its name promises. -/
theorem Node.Shaped.key?_eq_error_iff {span : Span} {f : Form} (h : (Node.mk span f).Shaped names)
    (hparts : ∀ name children, f = .other name children → name ∉ keyedNames) :
    f.key? joins = .error fault ↔ f.KeyBreaks joins fault := by
  cases f with
  | member => exact h.member_key?_eq_error_iff
  | property | method | field => exact h.entry_key?_eq_error_iff rfl
  | other name children =>
    rw [Form.key?, if_neg (hparts name children rfl)]
    refine iff_of_false nofun fun hbreaks => ?_
    rcases hbreaks.exists_key with ⟨_, _, _, _, h⟩ | ⟨_, _, h⟩ <;> cases h
  | _ =>
    refine iff_of_false nofun fun hbreaks => ?_
    rcases hbreaks.exists_key with ⟨_, _, _, _, h⟩ | ⟨_, _, h⟩ <;> cases h

end Expressions

end ApiTrace
